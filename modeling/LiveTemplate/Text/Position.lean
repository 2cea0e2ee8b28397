/-!
# Lines and columns

A position in a text counts lines and columns from one; a column counts characters.  Offsets
count bytes of the encoding in one to four bytes, so an offset may lie behind the end or inside
a character.  Behind the end means at the end; inside a character no prefix of the text has
that length, and the position is that of the end too.
-/

set_option autoImplicit false

namespace LiveTemplate

/-- A place in a text, counted from line one and column one. -/
structure Position where
  line : Nat
  column : Nat
deriving Repr, DecidableEq

namespace Position

/-- The length of the characters in bytes. -/
def byteLength (cs : List Char) : Nat := cs.foldl (fun n c => n + c.utf8Size) 0

/-- The characters before an offset, if it lies between two characters or at an end. -/
def charsBefore? (offset : Nat) : List Char → Option (List Char)
  | [] => if offset == 0 then some [] else none
  | c :: rest =>
    if offset == 0 then some []
    else if c.utf8Size ≤ offset then (charsBefore? (offset - c.utf8Size) rest).map (c :: ·)
    else none

/-- The position after these characters. -/
def after (cs : List Char) : Position where
  line := cs.count '\n' + 1
  column := (cs.reverse.takeWhile (· != '\n')).length + 1

/-- The position at a byte offset. -/
def ofOffset (text : String) (offset : Nat) : Position :=
  let cs := text.toList
  after ((charsBefore? (min offset (byteLength cs)) cs).getD cs)

/-- The position in words. -/
def text (p : Position) : String :=
  "line " ++ toString p.line ++ ", column " ++ toString p.column

end Position

end LiveTemplate
