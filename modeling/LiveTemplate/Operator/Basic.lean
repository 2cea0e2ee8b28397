/-!
# Operators

The operators of the expression language, with the rank at which they bind, the number of
operands they take and whether they decide for themselves which operands to evaluate.  Ranks
are listed from the tightest to the loosest.
-/

set_option autoImplicit false

namespace LiveTemplate

/-- How tightly an operator binds. -/
inductive Rank where
  | access
  | unary
  | term
  | sum
  | comparison
  | equality
  | conjunction
  | disjunction
  | coalescing
  | choice
deriving Repr, DecidableEq

namespace Rank

/-- All ranks, the tightest first. -/
def all : List Rank := [
  .access, .unary, .term, .sum, .comparison, .equality, .conjunction, .disjunction,
  .coalescing, .choice]

/-- The number of a rank, counted from one. -/
def level (rank : Rank) : Nat := all.idxOf rank + 1

/-- The name of a rank in messages. -/
def name : Rank → String
  | .access => "FieldOrFunction"
  | .unary => "Unary"
  | .term => "Term"
  | .sum => "Expression"
  | .comparison => "Comparison"
  | .equality => "Equality"
  | .conjunction => "LogicalAnd"
  | .disjunction => "LogicalOr"
  | .coalescing => "Nullc"
  | .choice => "Ternary"

/-- The rank of a name. -/
def ofName? (name : String) : Option Rank := all.find? fun rank => rank.name == name

end Rank

/-- The number of operands of an operator. -/
inductive Arity where
  | exactly (count : Nat)
  | any
deriving Repr, DecidableEq

/-- Is this number of operands right? -/
def Arity.accepts : Arity → Nat → Bool
  | .exactly n, count => count == n
  | .any, _ => true

/-- The operators. -/
inductive Operator where
  | field
  | index
  | call
  | array
  | map
  | merge
  | plus
  | minus
  | not
  | multiply
  | divide
  | remainder
  | add
  | subtract
  | less
  | greater
  | lessEqual
  | greaterEqual
  | equal
  | notEqual
  | and
  | or
  | coalesce
  | choose
deriving Repr, DecidableEq

namespace Operator

/-- All operators, the tightest first. -/
def all : List Operator := [
  .field, .index, .call, .array, .map, .merge, .plus, .minus, .not, .multiply, .divide,
  .remainder, .add, .subtract, .less, .greater, .lessEqual, .greaterEqual, .equal, .notEqual,
  .and, .or, .coalesce, .choose]

/-- The name of an operator. -/
def name : Operator → String
  | .field => "."
  | .index => "["
  | .call => "function"
  | .array => "array"
  | .map => "map"
  | .merge => "merge"
  | .plus => "u+"
  | .minus => "u-"
  | .not => "!"
  | .multiply => "*"
  | .divide => "/"
  | .remainder => "%"
  | .add => "+"
  | .subtract => "-"
  | .less => "<"
  | .greater => ">"
  | .lessEqual => "<="
  | .greaterEqual => ">="
  | .equal => "=="
  | .notEqual => "!="
  | .and => "and"
  | .or => "or"
  | .coalesce => "nullc"
  | .choose => "?:"

/-- The operator of a name. -/
def ofName? (name : String) : Option Operator := all.find? fun op => op.name == name

/-- The rank at which an operator binds. -/
def rank : Operator → Rank
  | .field | .index | .call | .array | .map | .merge => .access
  | .plus | .minus | .not => .unary
  | .multiply | .divide | .remainder => .term
  | .add | .subtract => .sum
  | .less | .greater | .lessEqual | .greaterEqual => .comparison
  | .equal | .notEqual => .equality
  | .and => .conjunction
  | .or => .disjunction
  | .coalesce => .coalescing
  | .choose => .choice

/-- The number of operands. -/
def arity : Operator → Arity
  | .array | .merge => .any
  | .map | .plus | .minus | .not => .exactly 1
  | .choose => .exactly 3
  | _ => .exactly 2

/-- Does the operator itself choose which operands to evaluate? -/
def isLazy : Operator → Bool
  | .and | .or | .coalesce | .choose => true
  | _ => false

/-- Does the operator select from a container, and never call what it holds? -/
def isSelection : Operator → Bool
  | .field | .index => true
  | _ => false

end Operator

end LiveTemplate
