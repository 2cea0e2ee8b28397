import LiveTemplate.Json.Basic
import LiveTemplate.Text.Blank
/-!
# Reading JSON text

The strict grammar: no comments, no trailing commas, no leading zeros, no control characters
inside quotes, nothing but white space after the document.  Three rules go beyond it.

* **Depth.**  Arrays and objects may be nested up to a limit; one more level is refused.
* **Integers** that fit sixty-four bits, signed or unsigned, stay integers.  Larger ones, and
  the negative zero, are doubles, as is every number with a point or an exponent.
* **Doubles** are computed from the digits as one integer of sixty-four bits and one power of
  ten: digits that no longer fit are dropped, the integer is converted, and a single product or
  quotient with the power of ten gives the result.  A number too large for a double is refused.

The reader consumes a list of characters and returns what it did not consume; there is one
refusal, since no caller asks for its reason.
-/

set_option autoImplicit false

namespace LiveTemplate.Json.Reading

open Text

/-- Is this a decimal digit? -/
def isDigit (c : Char) : Bool := '0' ≤ c && c ≤ '9'

/-- The value of a decimal digit. -/
def digit (c : Char) : Nat := c.toNat - '0'.toNat

/-- The greatest unsigned 64-bit integer. -/
def maxWord : Nat := 18446744073709551615

/-- Append digits to an integer as long as it fits a word.  Returns the integer, the number of
digits it took, and the digits it left. -/
def fitWord (word taken : Nat) : List Char → Nat × Nat × List Char
  | [] => (word, taken, [])
  | c :: rest =>
    if word * 10 + digit c > maxWord then (word, taken, c :: rest)
    else fitWord (word * 10 + digit c) (taken + 1) rest

/-- A power of ten that a double can hold. -/
def powerOfTen (n : Nat) : Float := Float.ofScientific 1 false n

/-- Scale by a power of ten in one product or quotient.  Exponents below `-308` go down in
steps of `308`; the fuel counts these steps. -/
def scaleDouble : Nat → Float → Int → Option Float
  | 0, x, _ => some x
  | fuel + 1, x, exponent =>
    if exponent.natAbs ≤ 308 then
      if exponent ≥ 0 then
        let y := x * powerOfTen exponent.toNat
        if y.isInf then none else some y
      else some (x / powerOfTen exponent.natAbs)
    else if x == 0.0 then some x
    else if exponent ≥ 0 then none
    else scaleDouble fuel (x / powerOfTen 308) (exponent + 308)

/-- The double `word · 10 ^ exponent` with a sign.  Below `10 ^ -308` a few steps reach zero. -/
def double (negative : Bool) (word : Nat) (exponent : Int) : Option Json := do
  let x ← scaleDouble 8 (Number.ofInt word) exponent
  some (.float (if negative then -x else x))

/-- The greatest signed 32-bit integer; exponents beyond it count as boundless. -/
def maxExponent : Nat := 2147483647

/-- The exponent that follows a number, if there is one: its sign and its digits. -/
def exponent? : List Char → Option (Option (Bool × List Char) × List Char)
  | c :: rest =>
    if c == 'e' || c == 'E' then
      let (down, rest) := match rest with
        | '+' :: rest => (false, rest)
        | '-' :: rest => (true, rest)
        | rest => (false, rest)
      let digits := rest.takeWhile isDigit
      if digits.isEmpty then none else some (some (down, digits), rest.dropWhile isDigit)
    else some (none, c :: rest)
  | [] => some (none, [])

/-- The double with a word, an exponent from its point, and a written exponent. -/
def withExponent (negative : Bool) (word : Nat) (exponent : Int) :
    Option (Bool × List Char) → Option Json
  | none => double negative word exponent
  | some (down, digits) =>
    let written := digits.foldl (fun n c => n * 10 + digit c) 0
    if written > maxExponent then
      if word != 0 && !down then none else some (.float (if negative then -0.0 else 0.0))
    else double negative word (if down then exponent - written else exponent + written)

/-- A number after its sign. -/
def number (negative : Bool) (cs : List Char) : Option (Json × List Char) := do
  let whole := cs.takeWhile isDigit
  let rest := cs.dropWhile isDigit
  if whole.isEmpty || (whole.length > 1 && whole.head? == some '0') then none
  let (word, _, dropped) := fitWord 0 0 whole
  match rest with
  | '.' :: rest =>
    let places := rest.takeWhile isDigit
    if places.isEmpty then none
    let (word, taken, _) := fitWord word 0 places
    let (written, rest) ← exponent? (rest.dropWhile isDigit)
    let value ← withExponent negative word (dropped.length - taken) written
    some (value, rest)
  | rest =>
    let (written, after) ← exponent? rest
    match written with
    | some _ => some (← withExponent negative word dropped.length written, after)
    | none =>
      if !dropped.isEmpty then some (← double negative word dropped.length, after)
      else if !negative then some (.int word, after)
      else if word == 0 || word > 9223372036854775808 then
        some (.float (-(Number.ofInt word)), after)
      else some (.int (-(word : Int)), after)

/-- Four hexadecimal digits. -/
def fourHex : List Char → Option (Nat × List Char)
  | a :: b :: c :: d :: rest => do
    let value (c : Char) : Option Nat :=
      if isDigit c then some (digit c)
      else if 'a' ≤ c ∧ c ≤ 'f' then some (c.toNat - 'a'.toNat + 10)
      else if 'A' ≤ c ∧ c ≤ 'F' then some (c.toNat - 'A'.toNat + 10)
      else none
    some ((((← value a) * 16 + (← value b)) * 16 + (← value c)) * 16 + (← value d), rest)
  | _ => none

/-- A character written by its code, after the `u`.  Codes of the two surrogate ranges stand
only in pairs. -/
def codeChar (cs : List Char) : Option (Char × List Char) := do
  let (high, rest) ← fourHex cs
  if 0xDC00 ≤ high ∧ high ≤ 0xDFFF then none
  else if 0xD800 ≤ high ∧ high ≤ 0xDBFF then
    match rest with
    | '\\' :: 'u' :: rest => do
      let (low, rest) ← fourHex rest
      if 0xDC00 ≤ low ∧ low ≤ 0xDFFF then
        some (Char.ofNat (0x10000 + (high - 0xD800) * 0x400 + (low - 0xDC00)), rest)
      else none
    | _ => none
  else some (Char.ofNat high, rest)

/-- The character that an escape letter stands for. -/
def letterChar? (c : Char) : Option Char :=
  if c == '\x22' || c == '\\' || c == '/' then some c
  else if c == 'b' then some '\x08'
  else if c == 'f' then some '\x0c'
  else if c == 'n' then some '\x0a'
  else if c == 'r' then some '\x0d'
  else if c == 't' then some '\x09'
  else none

/-- The rest of a quoted text, after its opening quote.  Each round consumes a character, so
the length of the input is fuel enough. -/
def quoted : Nat → List Char → List Char → Option (String × List Char)
  | 0, _, _ => none
  | _ + 1, _, [] => none
  | fuel + 1, acc, c :: rest =>
    if c == '\x22' then some (String.ofList acc.reverse, rest)
    else if c == '\\' then
      match rest with
      | 'u' :: rest => do
        let (d, rest) ← codeChar rest
        quoted fuel (d :: acc) rest
      | letter :: rest => do
        let d ← letterChar? letter
        quoted fuel (d :: acc) rest
      | [] => none
    else if c.toNat < 0x20 then none
    else quoted fuel (c :: acc) rest

/-- Strip a word. -/
def word? : List Char → List Char → Option (List Char)
  | [], rest => some rest
  | _ :: _, [] => none
  | w :: ws, c :: cs => if w == c then word? ws cs else none

mutual
/-- A value.  The first number is the depth still allowed, the second is fuel: every call
consumes a character or stands just before one that does. -/
def value (depth : Nat) : Nat → List Char → Option (Json × List Char)
  | 0, _ => none
  | fuel + 1, cs =>
    match skipBlank cs with
    | [] => none
    | '\x22' :: rest => do
      let (s, rest) ← quoted (rest.length + 1) [] rest
      some (.text s, rest)
    | '[' :: rest =>
      match depth with
      | 0 => none
      | depth + 1 =>
        match skipBlank rest with
        | ']' :: rest => some (.array [], rest)
        | rest => do
          let (items, rest) ← elements depth fuel rest
          some (.array items, rest)
    | '\x7b' :: rest =>
      match depth with
      | 0 => none
      | depth + 1 =>
        match skipBlank rest with
        | '\x7d' :: rest => some (.object [], rest)
        | rest => do
          let (fields, rest) ← members depth fuel rest
          some (ofFields fields, rest)
    | '-' :: rest => number true rest
    | c :: rest =>
      if isDigit c then number false (c :: rest)
      else if c == 'n' then (word? ['u', 'l', 'l'] rest).map fun rest => (.null, rest)
      else if c == 't' then (word? ['r', 'u', 'e'] rest).map fun rest => (.bool true, rest)
      else if c == 'f' then (word? ['a', 'l', 's', 'e'] rest).map fun rest => (.bool false, rest)
      else none

/-- The elements of an array, at least one, and the closing bracket. -/
def elements (depth : Nat) : Nat → List Char → Option (List Json × List Char)
  | 0, _ => none
  | fuel + 1, cs => do
    let (item, rest) ← value depth fuel cs
    match skipBlank rest with
    | ',' :: rest => do
      let (items, rest) ← elements depth fuel rest
      some (item :: items, rest)
    | ']' :: rest => some ([item], rest)
    | _ => none

/-- The fields of an object, at least one, and the closing brace. -/
def members (depth : Nat) : Nat → List Char → Option (List (String × Json) × List Char)
  | 0, _ => none
  | fuel + 1, cs =>
    match skipBlank cs with
    | '\x22' :: rest => do
      let (name, rest) ← quoted (rest.length + 1) [] rest
      match skipBlank rest with
      | ':' :: rest => do
        let (field, rest) ← value depth fuel rest
        match skipBlank rest with
        | ',' :: rest => do
          let (fields, rest) ← members depth fuel rest
          some ((name, field) :: fields, rest)
        | '\x7d' :: rest => some ([(name, field)], rest)
        | _ => none
      | _ => none
    | _ => none
end

end LiveTemplate.Json.Reading

namespace LiveTemplate.Json

/-- How deep a document may nest. -/
def depthLimit : Nat := 127

/-- Read a document that nests at most `depth` levels. -/
def read? (depth : Nat) (s : String) : Option Json :=
  let cs := s.toList
  match Reading.value depth (2 * cs.length + 2) cs with
  | some (document, rest) => if (Text.skipBlank rest).isEmpty then some document else none
  | none => none

end LiveTemplate.Json
