import LiveTemplate.Proofs.Syntax.Tree
/-!
# Reading a syntax tree

The documented grammar as rules that give back trees.  They know nothing of regions or pending
operators: a rule has read its parts when it makes a tree of them, and the tree says by its shape
which operands belong to which operator.

    template    = (binding | text)*
    binding     = "${" expression? "}"
    expression  = coalescing ("?" expression ":" expression)?
    coalescing  = disjunction ("??" disjunction)*                     from the right
    disjunction = conjunction ("||" conjunction)*                     from the left
    conjunction = equality ("&&" equality)*                           from the left
    equality    = comparison (("==" | "!=") comparison)*              from the left
    comparison  = sum (("<=" | ">=" | "<" | ">") sum)*                from the left
    sum         = term (("+" | "-") term)*                            from the left
    term        = unary (("*" | "/" | "%") unary)*                    from the left
    unary       = ("+" | "-" | "!")* factor                           the nearest sign first
    factor      = word | dimension | chain | number | quoted text
    chain       = accessible (field | index | call)*                  from the left
    accessible  = group | resource | name | array | map

The tokens are those of the program.  So are the mistakes and the bound on the depth: a text that
is rejected is rejected for the same reason by both, which is why nothing is lost by comparing
accepted texts only.
-/

set_option autoImplicit false

namespace LiveTemplate

namespace Grammar.Rule

variable {α : Type}

/-- The results of a rule that is repeated until it declines, at most once for each character of
a bound. -/
def collectWithin (rule : Rule α) : List Char → Rule (List α)
  | [] => pure []
  | _ :: bound => do
    match ← optional rule with
    | none => pure []
    | some value => do return value :: (← collectWithin rule bound)

/-- The results of a rule that is repeated until it declines. -/
def collect (rule : Rule α) : Rule (List α) := fun text => collectWithin rule text text

end Grammar.Rule

namespace Tree

/-- A chain of operators that associate to the left. -/
def fromLeft : Tree → List (Operator × Tree) → Tree
  | left, [] => left
  | left, (op, right) :: rest => fromLeft (.binary op left right) rest

/-- A chain of operators that associate to the right. -/
def fromRight : Tree → List (Operator × Tree) → Tree
  | left, [] => left
  | left, (op, right) :: rest => .binary op left (fromRight right rest)

/-- Signs before an operand, the nearest being put on it first. -/
def signed (ops : List Operator) (operand : Tree) : Tree := ops.foldr .sign operand

end Tree

/-- What follows something accessible. -/
inductive Access where
  | field (name : String)
  | index (key : Tree)
  | call (arguments : List Tree)

/-- The tree of an access. -/
def Access.of (container : Tree) : Access → Tree
  | .field name => .field container name
  | .index key => .index container key
  | .call arguments => .call container arguments

namespace TreeGrammar

open Grammar (Rule)
open Grammar.Rule

/-! ## Regions -/

def binding (inner : Rule Tree) : Rule Tree := do
  scan (Grammar.literal? ['$', '\x7b'])
  blanks
  let content ← optional inner
  blanks
  must .bindingEnd (char '\x7d')
  return .binding (content.getD (.leaf (.text "")))

def rawText (quote : Option Char) : Rule Tree := do
  let text ← scan (Grammar.literalText? quote)
  return .leaf (.text (String.ofList text))

def segments (inner : Rule Tree) (quote : Option Char) : Rule (List Tree) :=
  collect (orElse (binding inner) (rawText quote))

def quoted (inner : Rule Tree) (quote : Char) (unterminated : Mistake) : Rule Tree := do
  char quote
  let segments ← segments inner (some quote)
  must unterminated (char quote)
  return .text segments

def anyQuoted (inner : Rule Tree) : Rule Tree :=
  orElse (quoted inner '\x27' .singleQuote) (quoted inner '\x22' .doubleQuote)

/-- Elements with commas between them, or none. -/
def listed {α : Type} (element : Rule α) (missing : Mistake) : Rule (List α) := do
  match ← optional element with
  | none => return []
  | some first => do
    let rest ← collect do
      blanks
      char ','
      blanks
      must missing element
    return first :: rest

def group (inner : Rule Tree) : Rule Tree := do
  char '('
  blanks
  let content ← must .expression inner
  blanks
  must .groupEnd (char ')')
  return .group content

def array (inner : Rule Tree) : Rule Tree := do
  char '['
  blanks
  let items ← listed inner .array
  blanks
  must .array (char ']')
  return .array items

def mapEntry (inner : Rule Tree) : Rule (Tree × Tree) := do
  let key ← anyQuoted inner
  blanks
  must .mapColon (char ':')
  blanks
  let value ← must .expression inner
  return (key, value)

def map (inner : Rule Tree) : Rule Tree := do
  char '\x7b'
  blanks
  let entries ← listed (mapEntry inner) .mapKey
  blanks
  must .map (char '\x7d')
  return .map entries

/-! ## Factors -/

def word : Rule Tree := do
  let leaf ← scan Grammar.keyword?
  scan Grammar.wordEnd?
  return .leaf leaf

def dimension : Rule Tree := do
  let text ← numeral
  let unit ← scan Grammar.unit?
  scan Grammar.wordEnd?
  return .leaf (.dimension text unit)

def number : Rule Tree := do
  let text ← numeral
  return .leaf (.number text)

def name : Rule Tree := do
  let letters ← scan Grammar.identifier?
  if Grammar.reserved.contains letters then decline
  return .leaf (.name (String.ofList letters))

def resource : Rule Tree := do
  char '@'
  let letters ← scan Grammar.identifier?
  return .leaf (.name (String.ofList ('@' :: letters)))

def fieldAccess : Rule Access := do
  char '.'
  blanks
  let letters ← scan Grammar.identifier?
  return .field (String.ofList letters)

def indexAccess (inner : Rule Tree) : Rule Access := do
  char '['
  blanks
  let key ← must .expression inner
  blanks
  must .indexEnd (char ']')
  return .index key

def call (inner : Rule Tree) : Rule Access := do
  char '('
  blanks
  let arguments ← listed inner .expression
  blanks
  must .argumentsEnd (char ')')
  return .call arguments

def access (inner : Rule Tree) : Rule Access := do
  blanks
  orElse fieldAccess (orElse (indexAccess inner) (call inner))

def accessible (inner : Rule Tree) : Rule Tree :=
  orElse (group inner) (orElse resource (orElse name (orElse (array inner) (map inner))))

def accessChain (inner : Rule Tree) : Rule Tree := do
  let start ← accessible inner
  let accesses ← collect (access inner)
  return accesses.foldl Access.of start

def factor (inner : Rule Tree) : Rule Tree :=
  orElse word (orElse dimension (orElse (accessChain inner) (orElse number (anyQuoted inner))))

/-! ## Ranks -/

def unary (inner : Rule Tree) : Rule Tree := do
  let ops ← scan fun text => some (Grammar.signs text)
  if ops.isEmpty then factor inner
  else do
    let operand ← must .expression (factor inner)
    return .signed ops operand

/-- An operand, and operators each with a further operand. -/
def chain (operand : Rule Tree) (operator? : List Char → Option (Operator × List Char))
    (missing : Mistake) : Rule (Tree × List (Operator × Tree)) := do
  let first ← operand
  let rest ← collect do
    blanks
    let op ← scan operator?
    blanks
    let right ← must missing operand
    return (op, right)
  return (first, rest)

def leftChain (operand : Rule Tree) (operator? : List Char → Option (Operator × List Char))
    (missing : Mistake) : Rule Tree := do
  let (first, rest) ← chain operand operator? missing
  return .fromLeft first rest

def term (inner : Rule Tree) : Rule Tree :=
  leftChain (unary inner) Grammar.termOperator? .operandAfterTerm

def sum (inner : Rule Tree) : Rule Tree :=
  leftChain (term inner) Grammar.sumOperator? .operandAfterSum

def comparison (inner : Rule Tree) : Rule Tree :=
  leftChain (sum inner) Grammar.comparisonOperator? .operandAfterComparison

def equality (inner : Rule Tree) : Rule Tree :=
  leftChain (comparison inner) Grammar.equalityOperator? .operandAfterEquality

def conjunction (inner : Rule Tree) : Rule Tree :=
  leftChain (equality inner) Grammar.andOperator? .operandAfterAnd

def disjunction (inner : Rule Tree) : Rule Tree :=
  leftChain (conjunction inner) Grammar.orOperator? .operandAfterOr

def coalescing (inner : Rule Tree) : Rule Tree := do
  let (first, rest) ← chain (disjunction inner) Grammar.coalesceOperator? .operandAfterCoalesce
  return .fromRight first rest

def branches (inner : Rule Tree) : Rule (Tree × Tree) := do
  blanks
  let whenTrue ← inner
  blanks
  char ':'
  blanks
  let whenFalse ← inner
  return (whenTrue, whenFalse)

def choice (inner : Rule Tree) : Rule Tree := do
  let condition ← coalescing inner
  match ← optional Grammar.questionMark with
  | none => return condition
  | some () => do
    let (whenTrue, whenFalse) ← must .choice (branches inner)
    return .choice condition whenTrue whenFalse

/-- An expression in which a number of further expressions may be inside one another. -/
def expression : Nat → Rule Tree
  | 0 => fail .tooDeep
  | depth + 1 => choice (expression depth)

/-- A template as the list of its segments. -/
def template : Rule (List Tree) := segments (expression Grammar.depthLimit) none

/-- The tree of a text, or the mistake that the text is rejected for and what was left of the text
there. -/
def read (text : List Char) : Except (Mistake × List Char) Tree :=
  match template text with
  | .done segments [] _ => .ok (.text segments)
  | .done _ rest _ => .error (Grammar.unreadMistake rest, rest)
  | .declined _ => .error (Grammar.unreadMistake text, text)
  | .failed mistake rest _ => .error (mistake, rest)

end TreeGrammar

end LiveTemplate
