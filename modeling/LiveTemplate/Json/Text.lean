import LiveTemplate.Json.Basic
import LiveTemplate.Number.Notation
/-!
# The compact text of a JSON document

No blanks, fields in the order of the object.  Text is quoted: the two characters `"` and `\`
and the control characters below the blank are escaped, the five common ones by a letter and
the rest by four hexadecimal digits; everything else stands for itself.
-/

set_option autoImplicit false

namespace LiveTemplate.Json

/-- A hexadecimal digit in lower case. -/
def hexDigit (n : Nat) : Char := if n < 10 then Char.ofNat (48 + n) else Char.ofNat (87 + n)

/-- The written form of one character inside quotes. -/
def escapeChar (c : Char) : List Char :=
  if c == '\x22' then ['\\', '\x22']
  else if c == '\\' then ['\\', '\\']
  else if c == '\x08' then ['\\', 'b']
  else if c == '\x09' then ['\\', 't']
  else if c == '\x0a' then ['\\', 'n']
  else if c == '\x0c' then ['\\', 'f']
  else if c == '\x0d' then ['\\', 'r']
  else if c.toNat < 0x20 then
    ['\\', 'u', '0', '0', hexDigit (c.toNat / 16), hexDigit (c.toNat % 16)]
  else [c]

/-- Text in quotes. -/
def quote (s : String) : String :=
  String.ofList ('\x22' :: s.toList.flatMap escapeChar ++ ['\x22'])

/-- Texts with commas between them. -/
def joinCommas (texts : List String) : String := String.intercalate "," texts

mutual
/-- The compact text of a document. -/
def compact : Json → String
  | .null => "null"
  | .bool b => if b then "true" else "false"
  | .int n => toString n
  | .float x => Layout.json.text x
  | .text s => quote s
  | .array items => "[" ++ joinCommas (compactItems items) ++ "]"
  | .object fields => "\x7b" ++ joinCommas (compactFields fields) ++ "\x7d"

/-- The texts of the elements. -/
def compactItems : List Json → List String
  | [] => []
  | item :: rest => compact item :: compactItems rest

/-- The texts of the fields: the quoted name, a colon, the value. -/
def compactFields : List (String × Json) → List String
  | [] => []
  | (name, value) :: rest => (quote name ++ ":" ++ compact value) :: compactFields rest
end

end LiveTemplate.Json
