import LiveTemplate.Number.Exact
import LiveTemplate.Text.Blank
/-!
# Reading numbers out of text

The reader is lenient in the way document authors expect.  White space in front is skipped, a
sign must touch what follows it, `inf`, `infinity` and `nan` are read without regard to case,
and whatever follows the number is ignored — but for a `%`, which may stand after more white
space and divides by a hundred.  Text without a number reads as not-a-number.

Digits are accumulated one at a time in double arithmetic, in base ten, or in base sixteen
after `0x`.  An exponent is marked by `e` in base ten, where it scales by tens, and by `p` in
base sixteen, where it scales by twos; a mark without digits makes the whole text unreadable.
-/

set_option autoImplicit false

namespace LiveTemplate

namespace Text

/-- The value of a digit in bases up to thirty-six; letters count in either case. -/
def digitValue (c : Char) : Nat :=
  if '0' ≤ c ∧ c ≤ '9' then c.toNat - '0'.toNat
  else if 'a' ≤ c ∧ c ≤ 'z' then c.toNat - 'a'.toNat + 10
  else if 'A' ≤ c ∧ c ≤ 'Z' then c.toNat - 'A'.toNat + 10
  else 36

/-- Is this a digit of the base? -/
def isDigitOf (base : Nat) (c : Char) : Bool := digitValue c < base && digitValue c < 36

/-- Strip a word written in lower case, whatever the case of the text. -/
def stripWord? (word : List Char) (text : List Char) : Option (List Char) :=
  match word, text with
  | [], rest => some rest
  | _ :: _, [] => none
  | w :: ws, c :: cs => if c.toLower == w then stripWord? ws cs else none

end Text

namespace Numeral

open Text

/-- A sign, one if there is none, and the rest. -/
def sign : List Char → Float × List Char
  | '+' :: rest => (1.0, rest)
  | '-' :: rest => (-1.0, rest)
  | rest => (1.0, rest)

/-- The value of a run of digits, accumulated from the left in double arithmetic. -/
def accumulate (base : Nat) (digits : List Char) : Float :=
  digits.foldl (fun acc c => acc * Number.ofInt base + Number.ofInt (digitValue c)) 0.0

/-- The fraction after a point: the value of its digits over a power of the base. -/
def fraction (base : Nat) (digits : List Char) : Float :=
  if digits.isEmpty then 0.0
  else accumulate base digits / Number.power (Number.ofInt base) digits.length

/-- Digits, point and fraction.  There is no value without a digit or a point. -/
def significand? (base : Nat) (text : List Char) : Option (Float × List Char) :=
  let digits := text.takeWhile (isDigitOf base)
  let rest := text.dropWhile (isDigitOf base)
  match rest with
  | '.' :: rest =>
    let places := rest.takeWhile (isDigitOf base)
    some (if places.isEmpty then accumulate base digits
          else accumulate base digits + fraction base places,
      rest.dropWhile (isDigitOf base))
  | rest => if digits.isEmpty then none else some (accumulate base digits, rest)

/-- Scale by the exponent, if the mark of one follows. -/
def scaled (mark : Char) (radix : Float) (value : Float) (text : List Char) : Float × List Char :=
  match stripWord? [mark] text with
  | none => (value, text)
  | some rest =>
    let (direction, rest) := sign rest
    let digits := rest.takeWhile (isDigitOf 10)
    let after := rest.dropWhile (isDigitOf 10)
    if digits.isEmpty then (Number.nan, after)
    else (value * Float.pow radix (direction * accumulate 10 digits), after)

/-- The magnitude of a number in one of the two bases, and the rest. -/
def inBase (base : Nat) (mark : Char) (radix : Float) (text : List Char) : Float × List Char :=
  match significand? base text with
  | none => (Number.nan, text)
  | some (value, rest) => scaled mark radix value rest

/-- The number that the text starts with, and the rest. -/
def leading (text : List Char) : Float × List Char :=
  match text.dropWhile isSpace with
  | [] => (Number.nan, [])
  | start =>
    let (direction, body) := sign start
    match stripWord? ['i', 'n', 'f', 'i', 'n', 'i', 't', 'y'] body with
    | some rest => (direction * Number.infinity, rest)
    | none =>
    match stripWord? ['i', 'n', 'f'] body with
    | some rest => (direction * Number.infinity, rest)
    | none =>
    match stripWord? ['n', 'a', 'n'] body with
    | some rest => (Number.nan, rest)
    | none =>
    let (magnitude, rest) := match stripWord? ['0', 'x'] body with
      | some digits => inBase 16 'p' 2.0 digits
      | none => inBase 10 'e' 10.0 body
    (direction * magnitude, rest)

/-- Read a number.  A percent sign after it, white space apart, divides by a hundred. -/
def value (text : String) : Float :=
  let (number, rest) := leading text.toList
  match rest.dropWhile isSpace with
  | '%' :: _ => number * 0.01
  | _ => number

end Numeral

namespace Integer

open Text

/-- Do the characters start a hexadecimal number: `0x` and then a digit? -/
def hasHexMark : List Char → Bool
  | '0' :: x :: d :: _ => (x == 'x' || x == 'X') && isDigitOf 16 d
  | _ => false

/-- The base to read in and the text without its mark.  Base zero is inferred: sixteen after
`0x`, eight after a leading zero, otherwise ten.  Base sixteen allows the mark. -/
def radix (base : Nat) (text : List Char) : Nat × List Char :=
  if base == 0 then
    if hasHexMark text then (16, text.drop 2)
    else match text with
      | '0' :: _ => (8, text)
      | _ => (10, text)
  else if base == 16 ∧ hasHexMark text then (16, text.drop 2)
  else (base, text)

/-- The integer if it is a signed 64-bit integer. -/
def checked (n : Int) : Option Int :=
  if Number.minInt64 ≤ n ∧ n ≤ Number.maxInt64 then some n else none

/-- One more digit, at the right.  Negative numbers grow downwards, so that the least integer
can be read; a product or a sum out of range is no number. -/
def appendDigit (base : Nat) (negative : Bool) (acc : Int) (c : Char) : Option Int := do
  let product ← checked (acc * base)
  checked (if negative then product - digitValue c else product + digitValue c)

/-- Read an integer in a base.  White space and a sign may come first and the number ends at
the first character that is no digit.  Zero stands for every failure: no digits, a base that
is one or above thirty-six, a number out of range. -/
def ofText (base : Nat) (text : String) : Int :=
  if base == 1 ∨ base > 36 then 0
  else
    let start := text.toList.dropWhile isSpace
    let (negative, body) := match start with
      | '-' :: rest => (true, rest)
      | '+' :: rest => (false, rest)
      | rest => (false, rest)
    let (base, body) := radix base body
    let digits := body.takeWhile (isDigitOf base)
    (digits.foldlM (appendDigit base negative) 0).getD 0

/-- Read an integer that must fit thirty-two bits; zero otherwise. -/
def ofTextInt32 (base : Nat) (text : String) : Int :=
  let n := ofText base text
  if -2147483648 ≤ n ∧ n ≤ 2147483647 then n else 0

end Integer

end LiveTemplate
