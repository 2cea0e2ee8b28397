import LiveTemplate.Color.Name
import LiveTemplate.Text.Blank
/-!
# Reading colors

A color is written in one of three ways:

* `#` and three, four, six or eight hexadecimal digits — the short forms double each digit, and
  a form without alpha is solid;
* a name;
* a function: `rgb(…)` or `hsl(…)`, also spelled `rgba` and `hsla`, whose first argument is a
  color or a number and whose further arguments are numbers.  A number may carry a `%`, which
  divides it by a hundred.  `rgb` takes a color and an alpha, or three channels and perhaps an
  alpha; `hsl` takes three numbers and perhaps an alpha.

White space is allowed around the color, around the commas and inside the parentheses.  Reading
goes in two steps.  The grammar gives a `Term`, where anything that does not fit makes the text
malformed; resolving the term then gives the color, and the first cause of failure, from the
inside out, is the one reported.
-/

set_option autoImplicit false

namespace LiveTemplate.Color

open Text

/-- Why a text is no color. -/
inductive Fault where
  | invalidHex
  | unknownName (name : String)
  | tooManyColorArguments
  | tooFewColorArguments
  | tooManyHslArguments
  | tooFewHslArguments
  | malformed (text : String)
deriving Repr, DecidableEq

/-- The wording of a failure. -/
def Fault.message : Fault → String
  | .invalidHex => "Invalid hexidecimal color"
  | .unknownName name => "Invalid named color: '" ++ name ++ "'"
  | .tooManyColorArguments => "too many arguments in a color function"
  | .tooFewColorArguments => "expected at least two arguments for a color function"
  | .tooManyHslArguments => "too many arguments in an hsl function"
  | .tooFewHslArguments => "expected at least three arguments for an hsl function"
  | .malformed text => "malformed color '" ++ text ++ "'"

/-- The two color functions. -/
inductive Model where
  | rgb
  | hsl
deriving Repr, DecidableEq

/-- A written color.  A function has a first argument, which may itself be a color, and further
numbers. -/
inductive Term where
  | hex (digits : List Char)
  | name (letters : List Char)
  | ofColor (model : Model) (first : Term) (rest : List Float)
  | ofNumbers (model : Model) (first : Float) (rest : List Float)

/-- Is this a hexadecimal digit? -/
def isHexDigit (c : Char) : Bool :=
  ('0' ≤ c && c ≤ '9') || ('a' ≤ c && c ≤ 'f') || ('A' ≤ c && c ≤ 'F')

/-- Is this a decimal digit? -/
def isDigit (c : Char) : Bool := '0' ≤ c && c ≤ '9'

/-- Is this a letter of a name? -/
def isLetter (c : Char) : Bool := ('a' ≤ c && c ≤ 'z') || ('A' ≤ c && c ≤ 'Z')

/-- The value of a hexadecimal digit. -/
def hexValue (c : Char) : Nat :=
  if isDigit c then c.toNat - '0'.toNat
  else if 'a' ≤ c then c.toNat - 'a'.toNat + 10
  else c.toNat - 'A'.toNat + 10

/-- The number that hexadecimal digits denote. -/
def ofHexDigits (digits : List Char) : Nat := digits.foldl (fun n c => n * 16 + hexValue c) 0

/-- The color of hexadecimal digits: a digit per channel or two, with or without alpha. -/
def ofHex? (digits : List Char) : Option Color :=
  let n := ofHexDigits digits
  let doubled (shift : Nat) : UInt8 := UInt8.ofNat ((n >>> shift) % 16 * 0x11)
  match digits.length with
  | 3 => some (ofChannels (doubled 8) (doubled 4) (doubled 0) 0xFF)
  | 4 => some (ofChannels (doubled 12) (doubled 8) (doubled 4) (doubled 0))
  | 6 => some ⟨(UInt32.ofNat n <<< 8) ||| 0xFF⟩
  | 8 => some ⟨UInt32.ofNat n⟩
  | _ => none

namespace Reading

/-- A number: digits with or without a point, or a point and digits; perhaps a percent sign. -/
def number? (text : List Char) : Option (Float × List Char) :=
  let whole := text.takeWhile isDigit
  let rest := text.dropWhile isDigit
  let (places, rest) := match rest with
    | '.' :: rest => (rest.takeWhile isDigit, rest.dropWhile isDigit)
    | rest => ([], rest)
  if whole.isEmpty ∧ places.isEmpty then none
  else
    let value := Number.ofPoint whole places 0
    match rest with
    | '%' :: rest => some (value * 0.01, rest)
    | rest => some (value, rest)

/-- As many further arguments as there are: a comma and a number each.  The fuel counts them. -/
def arguments : Nat → List Char → List Float × List Char
  | 0, text => ([], text)
  | fuel + 1, text =>
    match skipBlank text with
    | ',' :: rest =>
      match number? (skipBlank rest) with
      | some (value, rest) =>
        let (values, rest) := arguments fuel rest
        (value :: values, rest)
      | none => ([], text)
    | _ => ([], text)

/-- A parenthesis that closes, after white space. -/
def closing? (text : List Char) : Option (List Char) :=
  match skipBlank text with
  | ')' :: rest => some rest
  | _ => none

/-- The word that starts a color function. -/
def model? : List Char → Option (Model × List Char)
  | 'r' :: 'g' :: 'b' :: rest => some (.rgb, rest)
  | 'h' :: 's' :: 'l' :: rest => some (.hsl, rest)
  | _ => none

/-- A function name, a parenthesis that opens, and white space. -/
def header? (text : List Char) : Option (Model × List Char) :=
  match model? text with
  | none => none
  | some (model, rest) =>
    let rest := match rest with
      | 'a' :: rest => rest
      | rest => rest
    match rest with
    | '(' :: rest => some (model, skipBlank rest)
    | _ => none

/-- A written color and what follows it.  Each function inside a function takes one unit of
fuel and at least four characters, so the length of the text is fuel enough. -/
def term? : Nat → List Char → Option (Term × List Char)
  | 0, _ => none
  | fuel + 1, text =>
    let function? : Option (Term × List Char) :=
      match header? text with
      | none => none
      | some (model, body) =>
        match term? fuel body with
        | some (first, rest) =>
          let (values, rest) := arguments rest.length rest
          (closing? rest).map fun rest => (.ofColor model first values, rest)
        | none =>
          match number? body with
          | some (first, rest) =>
            let (values, rest) := arguments rest.length rest
            (closing? rest).map fun rest => (.ofNumbers model first values, rest)
          | none => none
    match text with
    | '#' :: rest =>
      let digits := rest.takeWhile isHexDigit
      if digits.isEmpty then none else some (.hex digits, rest.dropWhile isHexDigit)
    | _ =>
      match function? with
      | some found => some found
      | none =>
        let letters := text.takeWhile isLetter
        if letters.isEmpty then none else some (.name letters, text.dropWhile isLetter)

end Reading

/-- Apply a color function to its arguments. -/
def apply : Model → List Float → Except Fault Color
  | .rgb, [color, alpha] => .ok (scaleAlpha ⟨Number.toUInt32 color⟩ alpha)
  | .rgb, [r, g, b] => .ok (ofRgb r g b 1.0)
  | .rgb, [r, g, b, a] => .ok (ofRgb r g b a)
  | .rgb, [_] => .error .tooFewColorArguments
  | .rgb, _ => .error .tooManyColorArguments
  | .hsl, [h, s, l] => .ok (ofHsl h s l 1.0)
  | .hsl, [h, s, l, a] => .ok (ofHsl h s l a)
  | .hsl, _ :: _ :: _ :: _ => .error .tooManyHslArguments
  | .hsl, _ => .error .tooFewHslArguments

/-- The color of a term.  A color inside a function counts as the number that its word is. -/
def Term.resolve : Term → Except Fault Color
  | .hex digits => match ofHex? digits with
    | some color => .ok color
    | none => .error .invalidHex
  | .name letters => match named? (String.ofList letters) with
    | some color => .ok color
    | none => .error (.unknownName (String.ofList letters))
  | .ofColor model first rest => do
    let color ← first.resolve
    apply model (Number.ofInt color.rgba.toNat :: rest)
  | .ofNumbers model first rest => apply model (first :: rest)

/-- Read a color. -/
def read (text : String) : Except Fault Color :=
  let start := skipBlank text.toList
  match Reading.term? (start.length + 1) start with
  | some (term, rest) =>
    if (skipBlank rest).isEmpty then term.resolve else .error (.malformed text)
  | none => .error (.malformed text)

end LiveTemplate.Color
