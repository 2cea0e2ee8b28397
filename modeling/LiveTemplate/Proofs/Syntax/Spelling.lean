import LiveTemplate.Proofs.Syntax.Term
/-!
# Spelling a tree

The way back from a tree to a text.  Two things are left to whoever writes the text.

* *Parentheses.*  `Tree.parenthesized` puts groups into a tree: only those that precedence,
  associativity and the rules for literals require, or one around everything that may have one.
* *White space.*  `Tree.Spelled tree text` says that the text has the tokens of the tree in their
  order, with any blanks wherever the grammar skips them, and either quotation mark.  A tree that
  is not of the language, such as a sign that is none or a field without a name, has no spelling.

A spelling alone does not say which tree it is a spelling of: `a - b - c` is one of two trees.
It does for a tree that *fits*, in which no operand binds more loosely than its place allows.
-/

set_option autoImplicit false

namespace LiveTemplate

/-! ## Tokens -/

/-- White space as it separates tokens, also none. -/
def IsBlanks (text : List Char) : Prop := ∀ c ∈ text, Text.isBlank c = true

/-- A letter or underscore, and then letters, underscores and digits. -/
def IsIdentifier : List Char → Prop
  | [] => False
  | c :: rest => Grammar.isNameStart c = true ∧ ∀ d ∈ rest, Grammar.isNameChar d = true

theorem IsIdentifier.name_chars {letters : List Char} (h : IsIdentifier letters) :
    ∀ c ∈ letters, Grammar.isNameChar c = true := by
  cases letters with
  | nil => exact h.elim
  | cons c rest =>
    have hfirst : Grammar.isNameChar c = true := by simp [Grammar.isNameChar, h.1]
    simpa using ⟨hfirst, h.2⟩

def IsDigits (text : List Char) : Prop := ∀ c ∈ text, Grammar.isDecimalDigit c = true

/-- The part of a number before the point: zero, or digits that do not start with it. -/
def IsWhole (text : List Char) : Prop :=
  text = ['0'] ∨ ∃ c rest, text = c :: rest ∧ c ≠ '0' ∧ IsDigits (c :: rest)

/-- A number: a whole part with or without a point and digits after it, or a point and digits. -/
def IsNumeral (text : List Char) : Prop :=
  IsWhole text ∨
  (∃ whole digits, IsWhole whole ∧ IsDigits digits ∧ text = whole ++ '.' :: digits) ∨
  ∃ c digits, IsDigits (c :: digits) ∧ text = '.' :: c :: digits

theorem IsNumeral.starts {digits : List Char} (h : IsNumeral digits) :
    ∃ c more, digits = c :: more ∧ (Grammar.isDecimalDigit c = true ∨ c = '.') := by
  obtain (rfl | ⟨c, more, rfl, -, hdigits⟩) | ⟨_, digits, (rfl | ⟨c, more, rfl, -, hdigits⟩), -, rfl⟩ |
    ⟨c, more, -, rfl⟩ := h
  · exact ⟨_, _, rfl, .inl (by decide)⟩
  · exact ⟨_, _, rfl, .inl (hdigits c List.mem_cons_self)⟩
  · exact ⟨_, _, rfl, .inl (by decide)⟩
  · exact ⟨_, _, rfl, .inl (hdigits c List.mem_cons_self)⟩
  · exact ⟨_, _, rfl, .inr rfl⟩

/-- Text as it stands between quotation marks: no expression starts in it. -/
def IsRaw (quote : Char) (text : List Char) : Prop :=
  text ≠ [] ∧ quote ∉ text ∧ ¬['$', '\x7b'] <:+: text

/-- The letters of a unit.  Percent is no unit of a number in an expression. -/
def LengthUnit.letters? : LengthUnit → Option (List Char)
  | .dp => some ['d', 'p']
  | .px => some ['p', 'x']
  | .vh => some ['v', 'h']
  | .vw => some ['v', 'w']
  | _ => none

/-- An operand that is a single token.  Literal text is no operand without quotation marks. -/
def Leaf.Spelled : Leaf → List Char → Prop
  | .null, word => word = ['n', 'u', 'l', 'l']
  | .truth true, word => word = ['t', 'r', 'u', 'e']
  | .truth false, word => word = ['f', 'a', 'l', 's', 'e']
  | .number digits, word => IsNumeral digits ∧ word = digits
  | .dimension digits unit, word =>
    IsNumeral digits ∧ ∃ letters, unit.letters? = some letters ∧ word = digits ++ letters
  | .name symbol, word =>
    word = symbol.toList ∧ (IsIdentifier word ∧ word ∉ Grammar.reserved ∨
      ∃ letters, IsIdentifier letters ∧ word = '@' :: letters)
  | .text _, _ => False

namespace Operator

/-- The operator as it is written before or between its operands; the question mark for a choice. -/
def symbol : Operator → List Char
  | .plus | .add => ['+']
  | .minus | .subtract => ['-']
  | .not => ['!']
  | .multiply => ['*']
  | .divide => ['/']
  | .remainder => ['%']
  | .less => ['<']
  | .greater => ['>']
  | .lessEqual => ['<', '=']
  | .greaterEqual => ['>', '=']
  | .equal => ['=', '=']
  | .notEqual => ['!', '=']
  | .and => ['&', '&']
  | .or => ['|', '|']
  | .coalesce => ['?', '?']
  | .choose => ['?']
  | .field | .index | .call | .array | .map | .merge => []

def isSign : Operator → Bool
  | .plus | .minus | .not => true
  | _ => false

/-- Does the operator stand between two operands? -/
def isBinary (op : Operator) : Bool :=
  Rank.unary.level < op.rank.level && op.rank.level < Rank.choice.level

/-- Does the operator stand between expressions?  It is binary, or the question mark. -/
def isInfix (op : Operator) : Bool := op.isBinary || op == .choose

/-- The loosest rank on the left of a binary operator.  All but one associate to the left. -/
def leftLimit : Operator → Nat
  | .coalesce => Rank.disjunction.level
  | op => op.rank.level

/-- The loosest rank on the right of a binary operator. -/
def rightLimit : Operator → Nat
  | .coalesce => Rank.coalescing.level
  | op => op.rank.level - 1

end Operator

/-! ## Texts with blanks in them -/

/-- Between two marks, with blanks around it. -/
def Enclosed (opening closing : List Char) (inside : List Char → Prop) (text : List Char) : Prop :=
  ∃ before middle after, IsBlanks before ∧ inside middle ∧ IsBlanks after ∧
    text = opening ++ (before ++ (middle ++ (after ++ closing)))

/-- Two texts with a mark between them, and blanks around the mark. -/
def Parted (mark : List Char) (left right : List Char → Prop) (text : List Char) : Prop :=
  ∃ first before after second, left first ∧ IsBlanks before ∧ IsBlanks after ∧ right second ∧
    text = first ++ (before ++ (mark ++ (after ++ second)))

/-- Two texts with blanks between them. -/
def Followed (left right : List Char → Prop) (text : List Char) : Prop :=
  ∃ first before second, left first ∧ IsBlanks before ∧ right second ∧
    text = first ++ (before ++ second)

/-- Texts that go on a list, each after a comma. -/
def Continued : List (List Char) → List Char → Prop
  | [], text => text = []
  | next :: more, text => ∃ before after rest, IsBlanks before ∧ IsBlanks after ∧
    Continued more rest ∧ text = before ++ (',' :: (after ++ (next ++ rest)))

/-- Texts with commas between them. -/
def Separated : List (List Char) → List Char → Prop
  | [], text => text = []
  | first :: more, text => ∃ rest, Continued more rest ∧ text = first ++ rest

/-! ## Trees -/

/-- Is this literal text? -/
def Tree.isLiteral : Tree → Bool
  | .leaf (.text _) => true
  | _ => false

/-- Is this a quoted text? -/
def Tree.isQuoted : Tree → Bool
  | .text _ => true
  | _ => false

mutual
/-- The text spells the tree, as an expression. -/
def Tree.Spelled : Tree → List Char → Prop
  | .leaf operand => operand.Spelled
  | .binding _ => fun _ => False
  | .text segments => fun text => ∃ quote inside, (quote = '\x27' ∨ quote = '\x22') ∧
    Tree.SpelledSegments quote segments inside ∧ text = quote :: (inside ++ [quote])
  | .group content => Enclosed ['('] [')'] content.Spelled
  | .array items => Enclosed ['['] [']'] fun text =>
    ∃ texts, Tree.SpelledAll items texts ∧ Separated texts text
  | .map entries => Enclosed ['\x7b'] ['\x7d'] fun text =>
    ∃ texts, Tree.SpelledEntries entries texts ∧ Separated texts text
  | .field container name =>
    Parted ['.'] container.Spelled fun text => text = name.toList ∧ IsIdentifier text
  | .index container key => Followed container.Spelled (Enclosed ['['] [']'] key.Spelled)
  | .call callee arguments => Followed callee.Spelled (Enclosed ['('] [')'] fun text =>
    ∃ texts, Tree.SpelledAll arguments texts ∧ Separated texts text)
  | .sign op operand => fun text => op.isSign = true ∧
    ∃ rest, operand.Spelled rest ∧ text = op.symbol ++ rest
  | .binary op left right => fun text => op.isBinary = true ∧
    Parted op.symbol left.Spelled right.Spelled text
  | .choice condition whenTrue whenFalse =>
    Parted Operator.choose.symbol condition.Spelled
      (Parted [':'] whenTrue.Spelled whenFalse.Spelled)

def Tree.SpelledAll : List Tree → List (List Char) → Prop
  | [] => fun texts => texts = []
  | tree :: rest => fun texts => ∃ first more, tree.Spelled first ∧ Tree.SpelledAll rest more ∧
    texts = first :: more

/-- The texts spell the entries of a map, whose keys are quoted texts. -/
def Tree.SpelledEntries : List (Tree × Tree) → List (List Char) → Prop
  | [] => fun texts => texts = []
  | (key, value) :: rest => fun texts => ∃ first more, key.isQuoted = true ∧
    Parted [':'] key.Spelled value.Spelled first ∧ Tree.SpelledEntries rest more ∧
    texts = first :: more

/-- The text spells a segment of a quoted text: literal text or an expression, or no expression,
which the empty text stands for. -/
def Tree.SpelledSegment (quote : Char) : Tree → List Char → Prop
  | .leaf (.text raw) => fun text => text = raw.toList ∧ IsRaw quote text
  | .binding content => Enclosed ['$', '\x7b'] ['\x7d'] fun text =>
    content.Spelled text ∨ content = .leaf (.text "") ∧ text = []
  | _ => fun _ => False

/-- The text spells the segments of a quoted text.  Literal texts side by side would be one. -/
def Tree.SpelledSegments (quote : Char) : List Tree → List Char → Prop
  | [] => fun text => text = []
  | segment :: rest => fun text => ∃ first more, segment.SpelledSegment quote first ∧
    Tree.SpelledSegments quote rest more ∧
    (segment.isLiteral = true → ∀ next ∈ rest.head?, next.isLiteral = false) ∧
    text = first ++ more
end

namespace Tree

/-! ## Parentheses -/

/-- How loosely a tree holds together: first what accesses may follow, then the other factors, and
then the ranks of the operators in their order. -/
def level : Tree → Nat
  | leaf (.name _) | leaf (.text _) => 0
  | leaf _ | text _ => 1
  | sign _ _ => Rank.unary.level
  | binary op _ _ => op.rank.level
  | choice _ _ _ => Rank.choice.level
  | _ => 0

/-- The tree in a place with a limit: with a group around it if it is looser, or anyhow.  The empty
content of a binding is no expression that could have a group. -/
def guarded (all : Bool) (limit : Nat) : Tree → Tree
  | leaf (.text raw) => leaf (.text raw)
  -- with the strictest limit, only what accesses may follow goes without a group
  | tree => if all || limit < tree.level then group tree else tree

mutual
/-- The tree with the groups that are required and no others, or with all that there may be. -/
def parenthesized (all : Bool) : Tree → Tree
  | leaf operand => leaf operand
  | binding content => binding ((parenthesized all content).guarded all Rank.choice.level)
  | text segments => text (parenthesizedSegments all segments)
  | group content => parenthesized all content
  | array items => array (parenthesizedAll all items)
  | map entries => map (parenthesizedEntries all entries)
  | field container name => field ((parenthesized all container).guarded all 0) name
  | index container key =>
    index ((parenthesized all container).guarded all 0)
      ((parenthesized all key).guarded all Rank.choice.level)
  | call callee arguments =>
    call ((parenthesized all callee).guarded all 0) (parenthesizedAll all arguments)
  | sign op operand => sign op ((parenthesized all operand).guarded all Rank.unary.level)
  | binary op left right =>
    binary op ((parenthesized all left).guarded all op.leftLimit)
      ((parenthesized all right).guarded all op.rightLimit)
  | choice condition whenTrue whenFalse =>
    choice ((parenthesized all condition).guarded all Rank.coalescing.level)
      ((parenthesized all whenTrue).guarded all Rank.choice.level)
      ((parenthesized all whenFalse).guarded all Rank.choice.level)

def parenthesizedAll (all : Bool) : List Tree → List Tree
  | [] => []
  | tree :: rest =>
    (parenthesized all tree).guarded all Rank.choice.level :: parenthesizedAll all rest

def parenthesizedEntries (all : Bool) : List (Tree × Tree) → List (Tree × Tree)
  | [] => []
  | (key, value) :: rest =>
    (parenthesized all key, (parenthesized all value).guarded all Rank.choice.level)
      :: parenthesizedEntries all rest

/-- A segment is no operand, only what is in it. -/
def parenthesizedSegments (all : Bool) : List Tree → List Tree
  | [] => []
  | segment :: rest => parenthesized all segment :: parenthesizedSegments all rest
end

mutual
/-- No operand is looser than its place allows, anywhere in the tree. -/
def Fits : Tree → Prop
  | leaf _ => True
  | binding content => Fits content
  | text segments => FitsAll segments
  | group content => Fits content
  | array items => FitsAll items
  | map entries => FitsEntries entries
  | field container _ => container.level = 0 ∧ Fits container
  | index container key => container.level = 0 ∧ Fits container ∧ Fits key
  | call callee arguments => callee.level = 0 ∧ Fits callee ∧ FitsAll arguments
  | sign _ operand => operand.level ≤ Rank.unary.level ∧ Fits operand
  | binary op left right =>
    left.level ≤ op.leftLimit ∧ right.level ≤ op.rightLimit ∧ Fits left ∧ Fits right
  | choice condition whenTrue whenFalse =>
    condition.level ≤ Rank.coalescing.level ∧ Fits condition ∧ Fits whenTrue ∧ Fits whenFalse

def FitsAll : List Tree → Prop
  | [] => True
  | tree :: rest => Fits tree ∧ FitsAll rest

def FitsEntries : List (Tree × Tree) → Prop
  | [] => True
  | (key, value) :: rest => Fits key ∧ Fits value ∧ FitsEntries rest
end

variable {all : Bool} {limit : Nat} {tree : Tree}

/-- The limit is kept: what remains without a group is not looser. -/
theorem level_guarded (all : Bool) (limit : Nat) (tree : Tree) :
    (tree.guarded all limit).level ≤ limit := by
  unfold guarded
  split
  · exact Nat.zero_le _
  · split
    · exact Nat.zero_le _
    · next h =>
      simp only [Bool.or_eq_true, decide_eq_true_eq, not_or, Nat.not_lt] at h
      exact h.2

theorem fits_guarded (h : tree.Fits) : (tree.guarded all limit).Fits := by
  unfold guarded
  split
  · trivial
  · split
    · exact h
    · exact h

theorem term_guarded : (tree.guarded all limit).term = tree.term := by
  unfold guarded
  split
  · rfl
  · split <;> rfl

mutual
theorem fits_parenthesized (all : Bool) (tree : Tree) : (tree.parenthesized all).Fits := by
  match tree with
  | leaf _ => trivial
  | binding content => exact fits_guarded (fits_parenthesized all content)
  | text segments => exact fitsAll_segments all segments
  | group content => exact fits_parenthesized all content
  | array items => exact fitsAll_parenthesized all items
  | map entries => exact fitsEntries_parenthesized all entries
  | field container _ =>
    exact ⟨Nat.le_zero.mp (level_guarded ..), fits_guarded (fits_parenthesized all container)⟩
  | index container key =>
    exact ⟨Nat.le_zero.mp (level_guarded ..), fits_guarded (fits_parenthesized all container),
      fits_guarded (fits_parenthesized all key)⟩
  | call callee arguments =>
    exact ⟨Nat.le_zero.mp (level_guarded ..), fits_guarded (fits_parenthesized all callee),
      fitsAll_parenthesized all arguments⟩
  | sign _ operand => exact ⟨level_guarded .., fits_guarded (fits_parenthesized all operand)⟩
  | binary _ left right =>
    exact ⟨level_guarded .., level_guarded .., fits_guarded (fits_parenthesized all left),
      fits_guarded (fits_parenthesized all right)⟩
  | choice condition whenTrue whenFalse =>
    exact ⟨level_guarded .., fits_guarded (fits_parenthesized all condition),
      fits_guarded (fits_parenthesized all whenTrue),
      fits_guarded (fits_parenthesized all whenFalse)⟩

theorem fitsAll_parenthesized (all : Bool) (trees : List Tree) :
    FitsAll (parenthesizedAll all trees) := by
  match trees with
  | [] => trivial
  | tree :: rest =>
    exact ⟨fits_guarded (fits_parenthesized all tree), fitsAll_parenthesized all rest⟩

theorem fitsEntries_parenthesized (all : Bool) (entries : List (Tree × Tree)) :
    FitsEntries (parenthesizedEntries all entries) := by
  match entries with
  | [] => trivial
  | (key, value) :: rest =>
    exact ⟨fits_parenthesized all key, fits_guarded (fits_parenthesized all value),
      fitsEntries_parenthesized all rest⟩

theorem fitsAll_segments (all : Bool) (segments : List Tree) :
    FitsAll (parenthesizedSegments all segments) := by
  match segments with
  | [] => trivial
  | segment :: rest => exact ⟨fits_parenthesized all segment, fitsAll_segments all rest⟩
end

mutual
/-- Parentheses make no difference to the term. -/
theorem term_parenthesized (all : Bool) (tree : Tree) :
    (tree.parenthesized all).term = tree.term := by
  match tree with
  | leaf _ => rfl
  | binding content => exact term_guarded.trans (term_parenthesized all content)
  | group content => exact term_parenthesized all content
  | text segments => exact congrArg Term.joined (terms_segments all segments)
  | array items => exact congrArg (Term.apply .array) (terms_parenthesized all items)
  | map entries =>
    simp [parenthesized, term, entryTerms_parenthesized all entries]
  | field container _ => simp [parenthesized, term, term_guarded, term_parenthesized all container]
  | index container key =>
    simp [parenthesized, term, term_guarded, term_parenthesized all container,
      term_parenthesized all key]
  | call callee arguments =>
    simp [parenthesized, term, term_guarded, term_parenthesized all callee,
      terms_parenthesized all arguments]
  | sign _ operand => simp [parenthesized, term, term_guarded, term_parenthesized all operand]
  | binary _ left right =>
    simp [parenthesized, term, term_guarded, term_parenthesized all left,
      term_parenthesized all right]
  | choice condition whenTrue whenFalse =>
    simp [parenthesized, term, term_guarded, term_parenthesized all condition,
      term_parenthesized all whenTrue, term_parenthesized all whenFalse]

theorem terms_parenthesized (all : Bool) (trees : List Tree) :
    terms (parenthesizedAll all trees) = terms trees := by
  match trees with
  | [] => rfl
  | tree :: rest =>
    rw [parenthesizedAll, terms, terms, term_guarded, term_parenthesized all tree,
      terms_parenthesized all rest]

theorem entryTerms_parenthesized (all : Bool) (entries : List (Tree × Tree)) :
    entryTerms (parenthesizedEntries all entries) = entryTerms entries := by
  match entries with
  | [] => rfl
  | (key, value) :: rest =>
    rw [parenthesizedEntries, entryTerms, entryTerms, term_guarded, term_parenthesized all key,
      term_parenthesized all value, entryTerms_parenthesized all rest]

theorem terms_segments (all : Bool) (segments : List Tree) :
    terms (parenthesizedSegments all segments) = terms segments := by
  match segments with
  | [] => rfl
  | segment :: rest =>
    rw [parenthesizedSegments, terms, terms, term_parenthesized all segment,
      terms_segments all rest]
end

/-! ## Depth -/

mutual
/-- The number of expressions that stand inside one another, the tree being one of them. -/
def depth : Tree → Nat
  | leaf (.text _) => 0
  | leaf _ => 1
  | binding content => depth content
  | text segments => deepest segments + 1
  | group content => depth content + 1
  | array items => deepest items + 1
  | map entries => max 1 (deepestEntry entries)
  | field container _ => depth container
  | index container key => max (depth container) (depth key + 1)
  | call callee arguments => max (depth callee) (deepest arguments + 1)
  | sign _ operand => depth operand
  | binary _ left right => max (depth left) (depth right)
  | choice condition whenTrue whenFalse =>
    max (depth condition) (max (depth whenTrue) (depth whenFalse) + 1)

def deepest : List Tree → Nat
  | [] => 0
  | tree :: rest => max (depth tree) (deepest rest)

/-- A key is no expression of its own, but there may be some in it. -/
def deepestEntry : List (Tree × Tree) → Nat
  | [] => 0
  | (key, value) :: rest => max (max (depth key) (depth value + 1)) (deepestEntry rest)
end

mutual
/-- The number of expressions that stand inside one another, where an empty list, an empty list of
arguments and an empty binding count as many expressions as one says.  They hold none, but a reader
that looks for an expression there has to be prepared for one. -/
def nesting (empty : Nat) : Tree → Nat
  | leaf (.text _) => 0
  | leaf _ => 1
  | binding content => max empty (nesting empty content)
  | text segments => nestingAll empty segments + 1
  | group content => nesting empty content + 1
  | array items => max empty (nestingAll empty items) + 1
  | map entries => max 1 (nestingEntries empty entries)
  | field container _ => nesting empty container
  | index container key => max (nesting empty container) (nesting empty key + 1)
  | call callee arguments => max (nesting empty callee) (max empty (nestingAll empty arguments) + 1)
  | sign _ operand => nesting empty operand
  | binary _ left right => max (nesting empty left) (nesting empty right)
  | choice condition whenTrue whenFalse =>
    max (nesting empty condition) (max (nesting empty whenTrue) (nesting empty whenFalse) + 1)

def nestingAll (empty : Nat) : List Tree → Nat
  | [] => 0
  | tree :: rest => max (nesting empty tree) (nestingAll empty rest)

def nestingEntries (empty : Nat) : List (Tree × Tree) → Nat
  | [] => 0
  | (key, value) :: rest =>
    max (max (nesting empty key) (nesting empty value + 1)) (nestingEntries empty rest)
end

/-- What is spelled is an expression. -/
theorem nesting_pos {empty : Nat} (tree : Tree) {text : List Char} (h : tree.Spelled text) :
    0 < tree.nesting empty := by
  match tree with
  | leaf operand =>
    cases operand with
    | text _ => exact h.elim
    | _ => exact Nat.one_pos
  | binding _ => exact h.elim
  | .text _ | .group _ | .array _ => exact Nat.succ_pos _
  | map _ => exact Nat.lt_of_lt_of_le Nat.one_pos (Nat.le_max_left ..)
  | index _ _ | call _ _ | choice _ _ _ => exact Nat.lt_of_lt_of_le (Nat.succ_pos _) (Nat.le_max_right ..)
  | field container _ =>
    obtain ⟨_, _, _, _, hcontainer, -⟩ := h
    exact nesting_pos container hcontainer
  | sign _ operand =>
    obtain ⟨-, _, hoperand, -⟩ := h
    exact nesting_pos operand hoperand
  | binary _ left _ =>
    obtain ⟨-, _, _, _, _, hleft, -⟩ := h
    exact Nat.lt_of_lt_of_le (nesting_pos left hleft) (Nat.le_max_left ..)

mutual
/-- What is empty makes a difference of as many expressions as it counts, and no more. -/
theorem nesting_bounds (empty : Nat) (tree : Tree) :
    tree.depth ≤ tree.nesting empty ∧ tree.nesting empty ≤ tree.depth + empty := by
  match tree with
  | leaf operand => cases operand <;> simp [depth, nesting]
  | binding content =>
    have hcontent := nesting_bounds empty content
    simp only [depth, nesting]
    omega
  | text segments =>
    have hsegments := nestingAll_bounds empty segments
    simp only [depth, nesting]
    omega
  | group content =>
    have hcontent := nesting_bounds empty content
    simp only [depth, nesting]
    omega
  | array items =>
    have hitems := nestingAll_bounds empty items
    simp only [depth, nesting]
    omega
  | map entries =>
    have hentries := nestingEntries_bounds empty entries
    simp only [depth, nesting]
    omega
  | field container _ => exact nesting_bounds empty container
  | index container key =>
    have hcontainer := nesting_bounds empty container
    have hkey := nesting_bounds empty key
    simp only [depth, nesting]
    omega
  | call callee arguments =>
    have hcallee := nesting_bounds empty callee
    have harguments := nestingAll_bounds empty arguments
    simp only [depth, nesting]
    omega
  | sign _ operand => exact nesting_bounds empty operand
  | binary _ left right =>
    have hleft := nesting_bounds empty left
    have hright := nesting_bounds empty right
    simp only [depth, nesting]
    omega
  | choice condition whenTrue whenFalse =>
    have hcondition := nesting_bounds empty condition
    have htrue := nesting_bounds empty whenTrue
    have hfalse := nesting_bounds empty whenFalse
    simp only [depth, nesting]
    omega

theorem nestingAll_bounds (empty : Nat) (trees : List Tree) :
    deepest trees ≤ nestingAll empty trees ∧ nestingAll empty trees ≤ deepest trees + empty := by
  match trees with
  | [] => simp [deepest, nestingAll]
  | tree :: rest =>
    have htree := nesting_bounds empty tree
    have hrest := nestingAll_bounds empty rest
    simp only [deepest, nestingAll]
    omega

theorem nestingEntries_bounds (empty : Nat) (entries : List (Tree × Tree)) :
    deepestEntry entries ≤ nestingEntries empty entries ∧
      nestingEntries empty entries ≤ deepestEntry entries + empty := by
  match entries with
  | [] => simp [deepestEntry, nestingEntries]
  | (key, value) :: rest =>
    have hkey := nesting_bounds empty key
    have hvalue := nesting_bounds empty value
    have hrest := nestingEntries_bounds empty rest
    simp only [deepestEntry, nestingEntries]
    omega
end

end Tree

end LiveTemplate
