import LiveTemplate.Text.Letter
/-!
# Lower case and upper case

The full conversions of the character standard, independent of language: a character may turn
into several.  One conversion looks at its surroundings.  The Greek capital sigma becomes the
final small sigma when a cased character stands before it and none after it; characters that
only modify their neighbours are skipped on both sides.
-/

set_option autoImplicit false

namespace LiveTemplate.Text

open Letter

/-- The characters with these codes. -/
def ofCodes (codes : List Nat) : List Char := codes.map Char.ofNat

/-- The longer counterpart listed for a code. -/
def longForm? (code : Nat) (table : List (Nat × List Nat)) : Option (List Nat) :=
  (table.find? fun entry => entry.1 == code).map fun entry => entry.2

/-- The lower case of one character, whatever stands around it. -/
def lowerChar (c : Char) : List Char :=
  match longForm? c.toNat lowerLong with
  | some codes => ofCodes codes
  | none => match shifted? c.toNat lowerShifts with
    | some code => [Char.ofNat code]
    | none => [c]

/-- The upper case of one character. -/
def upperChar (c : Char) : List Char :=
  match longForm? c.toNat upperLong with
  | some codes => ofCodes codes
  | none => match shifted? c.toNat upperShifts with
    | some code => [Char.ofNat code]
    | none => [c]

/-- Is the nearest character that is not transparent a cased one? -/
def meetsCased (cs : List Char) : Bool :=
  match cs.dropWhile (fun c => inRanges transparentRanges c.toNat) with
  | c :: _ => inRanges casedRanges c.toNat
  | [] => false

/-- The lower case of a text; `before` holds the characters already passed, nearest first. -/
def lowerFrom (before : List Char) : List Char → List Char
  | [] => []
  | c :: rest =>
    let lowered :=
      if c == 'Σ' then [if meetsCased before && !meetsCased rest then 'ς' else 'σ']
      else lowerChar c
    lowered ++ lowerFrom (c :: before) rest

/-- The lower case of a text. -/
def lowerCase (s : String) : String := String.ofList (lowerFrom [] s.toList)

/-- The upper case of a text. -/
def upperCase (s : String) : String := String.ofList (s.toList.flatMap upperChar)

end LiveTemplate.Text
