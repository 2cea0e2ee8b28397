import LiveTemplate.Grammar.Rule
import LiveTemplate.Text.Blank
/-!
# Tokens

The words of the expression language, as scanners: each takes the beginning of a text or nothing
at all, and tells what it has left.  A scanner takes as much as belongs to its token.
-/

set_option autoImplicit false

namespace LiveTemplate.Grammar

open Text

/-- Is this a decimal digit? -/
def isDecimalDigit (c : Char) : Bool := '0' ≤ c && c ≤ '9'

/-- May this start a name? -/
def isNameStart (c : Char) : Bool := ('a' ≤ c && c ≤ 'z') || ('A' ≤ c && c ≤ 'Z') || c == '_'

/-- May this be inside a name? -/
def isNameChar (c : Char) : Bool := isNameStart c || isDecimalDigit c

/-- The words that are no names. -/
def reserved : List (List Char) := [
  ['t', 'r', 'u', 'e'], ['f', 'a', 'l', 's', 'e'], ['n', 'u', 'l', 'l'],
  ['d', 'p'], ['p', 'x'], ['v', 'h'], ['v', 'w']]

/-- A given beginning. -/
def literal? : List Char → List Char → Option (Unit × List Char)
  | [], text => some ((), text)
  | _ :: _, [] => none
  | c :: word, d :: text => if c == d then literal? word text else none

/-- A letter or underscore, and then letters, underscores and digits. -/
def identifier? : List Char → Option (List Char × List Char)
  | [] => none
  | c :: rest =>
    if isNameStart c then some (c :: rest.takeWhile isNameChar, rest.dropWhile isNameChar)
    else none

/-- The end of a word: what follows could not be part of it. -/
def wordEnd? : List Char → Option (Unit × List Char)
  | [] => some ((), [])
  | c :: rest => if isNameChar c then none else some ((), c :: rest)

/-- The words for the two truth values and for null. -/
def keyword? (text : List Char) : Option (Leaf × List Char) :=
  match literal? ['t', 'r', 'u', 'e'] text with
  | some ((), rest) => some (.truth true, rest)
  | none =>
  match literal? ['f', 'a', 'l', 's', 'e'] text with
  | some ((), rest) => some (.truth false, rest)
  | none =>
  match literal? ['n', 'u', 'l', 'l'] text with
  | some ((), rest) => some (.null, rest)
  | none => none

/-- The unit of a dimension. -/
def unit? : List Char → Option (LengthUnit × List Char)
  | 'd' :: 'p' :: rest => some (.dp, rest)
  | 'p' :: 'x' :: rest => some (.px, rest)
  | 'v' :: 'h' :: rest => some (.vh, rest)
  | 'v' :: 'w' :: rest => some (.vw, rest)
  | _ => none

/-- A sign before an operand. -/
def unaryOperator? : List Char → Option (Operator × List Char)
  | '+' :: rest => some (.plus, rest)
  | '-' :: rest => some (.minus, rest)
  | '!' :: rest => some (.not, rest)
  | _ => none

/-- An operator between factors. -/
def termOperator? : List Char → Option (Operator × List Char)
  | '*' :: rest => some (.multiply, rest)
  | '/' :: rest => some (.divide, rest)
  | '%' :: rest => some (.remainder, rest)
  | _ => none

/-- An operator between terms. -/
def sumOperator? : List Char → Option (Operator × List Char)
  | '+' :: rest => some (.add, rest)
  | '-' :: rest => some (.subtract, rest)
  | _ => none

/-- An operator that compares sums. -/
def comparisonOperator? : List Char → Option (Operator × List Char)
  | '<' :: '=' :: rest => some (.lessEqual, rest)
  | '>' :: '=' :: rest => some (.greaterEqual, rest)
  | '<' :: rest => some (.less, rest)
  | '>' :: rest => some (.greater, rest)
  | _ => none

/-- An operator that tells whether two things are equal. -/
def equalityOperator? : List Char → Option (Operator × List Char)
  | '=' :: '=' :: rest => some (.equal, rest)
  | '!' :: '=' :: rest => some (.notEqual, rest)
  | _ => none

/-- Both. -/
def andOperator? : List Char → Option (Operator × List Char)
  | '&' :: '&' :: rest => some (.and, rest)
  | _ => none

/-- One of two. -/
def orOperator? : List Char → Option (Operator × List Char)
  | '|' :: '|' :: rest => some (.or, rest)
  | _ => none

/-- The first that is not null. -/
def coalesceOperator? : List Char → Option (Operator × List Char)
  | '?' :: '?' :: rest => some (.coalesce, rest)
  | _ => none

/-- Literal text, up to where an expression starts or the quotation mark that ends the text. -/
def literalText (quote : Option Char) : List Char → List Char × List Char
  | '$' :: '\x7b' :: rest => ([], '$' :: '\x7b' :: rest)
  | c :: rest =>
    if some c == quote then ([], c :: rest)
    else
      let (text, rest) := literalText quote rest
      (c :: text, rest)
  | [] => ([], [])

/-- Literal text that is not empty. -/
def literalText? (quote : Option Char) (text : List Char) : Option (List Char × List Char) :=
  match literalText quote text with
  | ([], _) => none
  | found => some found

/-- The places after a point. -/
def places (text : List Char) : List Char × List Char :=
  match text with
  | '.' :: rest => ('.' :: rest.takeWhile isDecimalDigit, rest.dropWhile isDecimalDigit)
  | rest => ([], rest)

namespace Rule

/-- Skip white space. -/
def blanks : Rule Unit := fun text => .done () (skipBlank text) []

/-- A given character. -/
def char (c : Char) : Rule Unit := scan (literal? [c])

/-- A decimal number without a sign.  A zero before other digits is a mistake; the point may
come first or last. -/
def numeral : Rule (List Char) := fun text =>
  match text with
  | '0' :: c :: rest =>
    if isDecimalDigit c then .failed .numberFormat text []
    else
      let (decimals, rest) := places (c :: rest)
      .done ('0' :: decimals) rest []
  | '.' :: c :: rest =>
    if isDecimalDigit c then
      .done ('.' :: c :: rest.takeWhile isDecimalDigit) (rest.dropWhile isDecimalDigit) []
    else .declined []
  | c :: rest =>
    if isDecimalDigit c then
      let (decimals, after) := places (rest.dropWhile isDecimalDigit)
      .done (c :: rest.takeWhile isDecimalDigit ++ decimals) after []
    else .declined []
  | [] => .declined []

end Rule

end LiveTemplate.Grammar
