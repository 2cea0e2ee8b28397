import LiveTemplate.Grammar.Token
/-!
# The grammar of templates

A template is literal text with expressions in it, each between a dollar sign with a brace that
opens and a brace that closes.  The rules below are listed from the tightest to the loosest:

* a *factor* is a word, a dimension, a number, a quoted text — which may again hold expressions
  — or an access chain: a group, a resource, a name, an array or a map, followed by fields,
  indexes and calls;
* signs stand directly before a factor;
* the binary operators are read rank by rank, each rank as a chain of the next tighter one;
* a choice has a condition of the loosest binary rank and two whole expressions.

Each rule emits its steps as it reads.  As soon as a rule has emitted one it has committed
itself, and whatever does not fit from then on is a mistake.

Expressions nest, and the number of expressions that may be inside one another is limited.  The
rules take the rule for an inner expression as an argument, so the limit is the recursion.
-/

set_option autoImplicit false

namespace LiveTemplate.Grammar

open Rule

/-! ## Chains of binary operators -/

/-- Operands with operators between them. -/
def chain (operand : Rule Unit) (operator? : List Char → Option (Operator × List Char))
    (missing : Mistake) : Rule Unit := do
  operand
  many do
    blanks
    let op ← scan operator?
    emit (.operator op)
    blanks
    must missing operand

/-- A chain that associates to the left. -/
def leftChain (operand : Rule Unit) (operator? : List Char → Option (Operator × List Char))
    (missing : Mistake) (rank : Rank) : Rule Unit := do
  chain operand operator? missing
  emit (.foldLeft rank)

/-! ## Regions -/

/-- An expression in a text.  Without content it stands for the empty text. -/
def binding (inner : Rule Unit) : Rule Unit := do
  scan (literal? ['$', '\x7b'])
  emit .enter
  blanks
  match ← optional inner with
  | some () => pure ()
  | none => emit (.push (.text ""))
  blanks
  must .bindingEnd (char '\x7d')
  emit (.leave .single)

/-- Literal text. -/
def rawText (quote : Option Char) : Rule Unit := do
  let text ← scan (literalText? quote)
  emit (.push (.text (String.ofList text)))

/-- A text between quotation marks. -/
def quoted (inner : Rule Unit) (quote : Char) (unterminated : Mistake) : Rule Unit := do
  char quote
  emit .enter
  many (orElse (binding inner) (rawText (some quote)))
  must unterminated (char quote)
  emit (.leave .text)

/-- A text in quotation marks of either form. -/
def anyQuoted (inner : Rule Unit) : Rule Unit :=
  orElse (quoted inner '\x27' .singleQuote) (quoted inner '\x22' .doubleQuote)

/-- Expressions with commas between them, or none. -/
def expressionList (inner : Rule Unit) (missing : Mistake) : Rule Unit := do
  match ← optional inner with
  | none => pure ()
  | some () => many do
      blanks
      char ','
      blanks
      must missing inner

/-- A group in parentheses. -/
def group (inner : Rule Unit) : Rule Unit := do
  char '('
  emit .enter
  blanks
  must .expression inner
  blanks
  must .groupEnd (char ')')
  emit (.leave .single)

/-- An array. -/
def array (inner : Rule Unit) : Rule Unit := do
  char '['
  emit .enter
  blanks
  expressionList inner .array
  blanks
  must .array (char ']')
  emit (.leave .list)

/-- A key in quotation marks, a colon and a value. -/
def mapEntry (inner : Rule Unit) : Rule Unit := do
  anyQuoted inner
  blanks
  must .mapColon (char ':')
  blanks
  must .expression inner

/-- Entries with commas between them, or none. -/
def mapEntries (inner : Rule Unit) : Rule Unit := do
  match ← optional (mapEntry inner) with
  | none => pure ()
  | some () => many do
      blanks
      char ','
      blanks
      must .mapKey (mapEntry inner)

/-- A map. -/
def map (inner : Rule Unit) : Rule Unit := do
  char '\x7b'
  emit (.operator .map)
  emit .enter
  blanks
  mapEntries inner
  blanks
  must .map (char '\x7d')
  emit (.leave .list)
  emit (.foldUnary .access)

/-! ## Factors -/

/-- A word for a truth value or null. -/
def word : Rule Unit := do
  let leaf ← scan keyword?
  scan wordEnd?
  emit (.push leaf)

/-- A number with a unit. -/
def dimension : Rule Unit := do
  let text ← numeral
  let unit ← scan unit?
  scan wordEnd?
  emit (.push (.dimension text unit))

/-- A number. -/
def number : Rule Unit := do
  let text ← numeral
  emit (.push (.number text))

/-- A name that is not reserved. -/
def name : Rule Unit := do
  let letters ← scan identifier?
  if reserved.contains letters then decline
  emit (.push (.name (String.ofList letters)))

/-- A resource: a name after an `@`. -/
def resource : Rule Unit := do
  char '@'
  let letters ← scan identifier?
  emit (.push (.name (String.ofList ('@' :: letters))))

/-- A field after a point. -/
def fieldAccess : Rule Unit := do
  char '.'
  blanks
  let letters ← scan identifier?
  emit (.operator .field)
  emit (.push (.text (String.ofList letters)))
  emit (.foldNewest .access)

/-- An index in brackets. -/
def indexAccess (inner : Rule Unit) : Rule Unit := do
  char '['
  emit (.operator .index)
  emit .enter
  blanks
  must .expression inner
  blanks
  must .indexEnd (char ']')
  emit (.leave .single)
  emit (.foldNewest .access)

/-- The arguments of a call in parentheses. -/
def call (inner : Rule Unit) : Rule Unit := do
  char '('
  emit (.operator .call)
  emit .enter
  blanks
  expressionList inner .expression
  blanks
  must .argumentsEnd (char ')')
  emit (.leave .list)
  emit (.foldNewest .access)

/-- A field, an index or a call. -/
def access (inner : Rule Unit) : Rule Unit := do
  blanks
  orElse fieldAccess (orElse (indexAccess inner) (call inner))

/-- What accesses may follow. -/
def accessible (inner : Rule Unit) : Rule Unit :=
  orElse (group inner) (orElse resource (orElse name (orElse (array inner) (map inner))))

/-- Something accessible with all accesses that follow. -/
def accessChain (inner : Rule Unit) : Rule Unit := do
  accessible inner
  many (access inner)

/-- A factor. -/
def factor (inner : Rule Unit) : Rule Unit :=
  orElse word (orElse dimension (orElse (accessChain inner) (orElse number (anyQuoted inner))))

/-! ## Ranks -/

/-- The signs before a factor, as they stand. -/
def signs : List Char → List Operator × List Char
  | [] => ([], [])
  | c :: rest =>
    match unaryOperator? [c] with
    | some (op, _) =>
      let (ops, rest) := signs rest
      (op :: ops, rest)
    | none => ([], c :: rest)

/-- Emit the operators of a list. -/
def emitOperators : List Operator → Rule Unit
  | [] => pure ()
  | op :: ops => do
    emit (.operator op)
    emitOperators ops

/-- A factor with the signs before it. -/
def unary (inner : Rule Unit) : Rule Unit := do
  let ops ← scan fun text => some (signs text)
  if ops.isEmpty then factor inner
  else
    emitOperators ops
    must .expression (factor inner)
    emit (.foldUnary .unary)

/-- Products, quotients and remainders. -/
def term (inner : Rule Unit) : Rule Unit :=
  leftChain (unary inner) termOperator? .operandAfterTerm .term

/-- Sums and differences. -/
def sum (inner : Rule Unit) : Rule Unit :=
  leftChain (term inner) sumOperator? .operandAfterSum .sum

/-- Comparisons by size. -/
def comparison (inner : Rule Unit) : Rule Unit :=
  leftChain (sum inner) comparisonOperator? .operandAfterComparison .comparison

/-- Comparisons for equality. -/
def equality (inner : Rule Unit) : Rule Unit :=
  leftChain (comparison inner) equalityOperator? .operandAfterEquality .equality

/-- Conjunctions. -/
def conjunction (inner : Rule Unit) : Rule Unit :=
  leftChain (equality inner) andOperator? .operandAfterAnd .conjunction

/-- Disjunctions. -/
def disjunction (inner : Rule Unit) : Rule Unit :=
  leftChain (conjunction inner) orOperator? .operandAfterOr .disjunction

/-- Chains that give the first operand that is not null; they associate to the right. -/
def coalescing (inner : Rule Unit) : Rule Unit := do
  chain (disjunction inner) coalesceOperator? .operandAfterCoalesce
  emit (.foldRight .coalescing)

/-- The question mark that makes a choice. -/
def questionMark : Rule Unit := do
  blanks
  char '?'

/-- The branches of a choice. -/
def branches (inner : Rule Unit) : Rule Unit := do
  blanks
  inner
  blanks
  char ':'
  emit (.operator .choose)
  blanks
  inner

/-- A choice, or what could be its condition. -/
def choice (inner : Rule Unit) : Rule Unit := do
  coalescing inner
  match ← optional questionMark with
  | none => pure ()
  | some () => do
      emit (.operator .choose)
      must .choice (branches inner)
      emit .foldChoice

/-- An expression in which a number of further expressions may be inside one another.  Where
none is left, trying to read one is a mistake. -/
def expression : Nat → Rule Unit
  | 0 => fail .tooDeep
  | depth + 1 => choice (expression depth)

/-- The number of expressions that may be inside one another. -/
def depthLimit : Nat := 64

/-- Literal text and expressions side by side. -/
def template : Rule Unit :=
  many (orElse (binding (expression depthLimit)) (rawText none))

/-- What is wrong when a text has been left unread. -/
def unreadMistake (rest : List Char) : Mistake :=
  if rest.isEmpty then .unexpected else .unexpectedBeforeEnd

/-- A template as the steps that put it together, and the mistake that ended it with what was
left of the text there. -/
def read (text : List Char) : Script × Option (Mistake × List Char) :=
  match template text with
  | .done () [] script => (script, none)
  | .done () rest script => (script, some (unreadMistake rest, rest))
  | .declined script => (script, some (unreadMistake text, text))
  | .failed mistake rest script => (script, some (mistake, rest))

end LiveTemplate.Grammar
