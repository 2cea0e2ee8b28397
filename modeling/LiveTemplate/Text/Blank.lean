/-!
# White space

Three notions of white space meet in a template, and each reader names the one it means.

* `isBlank` separates tokens: blank, tab, carriage return, line feed.
* `isSpace` stands around a number in text: the same and the form feed.
* `isWhiteSpace` is trimmed from a whole text: the property of the character standard.
-/

set_option autoImplicit false

namespace LiveTemplate.Text

/-- White space between the tokens of an expression, of JSON, of a color or a dimension. -/
def isBlank (c : Char) : Bool := c == ' ' || c == '\t' || c == '\r' || c == '\n'

/-- White space around a number in text. -/
def isSpace (c : Char) : Bool := isBlank c || c == '\x0c'

/-- Skip the white space before a token. -/
def skipBlank (cs : List Char) : List Char := cs.dropWhile isBlank

/-- The code ranges of the property White_Space. -/
def whiteSpaceRanges : List (Nat × Nat) := [
  (0x09, 0x0D), (0x20, 0x20), (0x85, 0x85), (0xA0, 0xA0), (0x1680, 0x1680), (0x2000, 0x200A),
  (0x2028, 0x2029), (0x202F, 0x202F), (0x205F, 0x205F), (0x3000, 0x3000)]

/-- The property White_Space. -/
def isWhiteSpace (c : Char) : Bool :=
  whiteSpaceRanges.any fun range => range.1 ≤ c.toNat && c.toNat ≤ range.2

/-- Drop white space at both ends. -/
def trim (cs : List Char) : List Char :=
  ((cs.dropWhile isWhiteSpace).reverse.dropWhile isWhiteSpace).reverse

end LiveTemplate.Text
