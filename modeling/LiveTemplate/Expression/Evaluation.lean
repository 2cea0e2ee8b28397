import LiveTemplate.Library.Call
import LiveTemplate.Operator.Arithmetic
import LiveTemplate.Operator.Comparison
import LiveTemplate.Operator.Selection
import LiveTemplate.Value.Walk
/-!
# Evaluation

Two kinds of values are computed by evaluation.  A node applies its operator; a symbol is looked
up in its scope, and gives null when the scope is gone.  A mere handle to either is null as well.
Every other value stays as it is, and so does what a look-up finds: evaluation takes one step
through a binding and no more.

Most operators take evaluated operands, from left to right.  The lazy ones take them raw: a
choice evaluates its condition and one branch, and the others their left side and, if that does
not settle the matter, their right side.

An operator is put on its operands by `build`.  When the operands are constant the result is
computed right away.  Otherwise it is a node.  Constant means that no operand reaches a node or
a symbol, and none an impure function either — except where the operator selects from a
container, for selecting calls nothing.
-/

set_option autoImplicit false

namespace LiveTemplate

namespace Operator

/-- Keys and values that alternate, as entries.  A last key without a value is dropped. -/
def pairUp : List Value → List (String × Value)
  | key :: value :: rest => (key.toText, value) :: pairUp rest
  | _ => []

/-- Apply an operator to evaluated operands.  A wrong number of them gives null. -/
def applyStrict (store : Store) : Operator → List Value → Run Value
  | .field, [a, b] => pure (a.selectField store b)
  | .index, [a, b] => pure (a.selectIndex store b)
  | .call, [callee, arguments] =>
    if arguments.kind == .array then callee.call store (arguments.items store) else pure .null
  | .array, items => Run.array items
  | .map, [flat] =>
    if flat.kind == .array then Run.map (Json.sortFields (pairUp (flat.items store)))
    else pure .null
  | .merge, parts => pure (Value.mergeAll parts)
  | .plus, [a] => pure a.plus
  | .minus, [a] => pure a.negate
  | .not, [a] => pure (.bool (!a.truthy))
  | .multiply, [a, b] => pure (a.multiply b)
  | .divide, [a, b] => pure (a.divideBy (· / ·) b)
  | .remainder, [a, b] => pure (a.divideBy Number.remainder b)
  | .add, [a, b] => pure (a.add b)
  | .subtract, [a, b] => pure (a.subtract b)
  | .less, [a, b] => pure (.bool (a.less b))
  | .greater, [a, b] => pure (.bool (a.greater b))
  | .lessEqual, [a, b] => pure (.bool (a.lessEqual b))
  | .greaterEqual, [a, b] => pure (.bool (a.greaterEqual b))
  | .equal, [a, b] => pure (.bool (a.equal b))
  | .notEqual, [a, b] => pure (.bool (a.notEqual b))
  | _, _ => pure .null

/-- Run computations from left to right. -/
def runAll : List (Run Value) → Run (List Value)
  | [] => pure []
  | operand :: rest => do
    let value ← operand
    return value :: (← runAll rest)

/-- Apply an operator to the computations of its operands.  A lazy operator runs those it needs
and the others run all of them.  A wrong number of operands gives null and runs none. -/
def applyTo (store : Store) : Operator → List (Run Value) → Run Value
  | .choose, [condition, whenTrue, whenFalse] => do
    if (← condition).truthy then whenTrue else whenFalse
  | .and, [a, b] => do
    let left ← a
    if left.truthy then b else pure left
  | .or, [a, b] => do
    let left ← a
    if left.truthy then pure left else b
  | .coalesce, [a, b] => do
    match ← a with
    | .null => b
    | left => pure left
  | op, operands =>
    if op.arity.accepts operands.length then do op.applyStrict store (← runAll operands)
    else pure .null

end Operator

namespace Value

mutual
/-- The present value of a value. -/
def eval (store : Store) : Value → Run Value
  | .node _ op operands => op.applyTo store (evaluations store operands)
  | .symbol _ scope name => pure (if store.isLive scope then store.get scope name else .null)
  | .handle ref kind label => pure (if kind.isEvaluable then .null else .handle ref kind label)
  | v => pure v

/-- The computations of the present values of all elements. -/
def evaluations (store : Store) : List Value → List (Run Value)
  | [] => []
  | v :: rest => eval store v :: evaluations store rest
end

end Value

namespace Operator

/-- Apply an operator to operands that may have to be evaluated. -/
def apply (store : Store) (op : Operator) (operands : List Value) : Run Value :=
  op.applyTo store (Value.evaluations store operands)

/-- Can the operator be applied ahead of evaluation? -/
def isConstant (store : Store) (op : Operator) (operands : List Value) : Bool :=
  (op.isSelection || operands.all fun v => v.isPure store) &&
    !operands.any fun v => v.reachesEvaluable store

/-- Put an operator on its operands. -/
def build (store : Store) (op : Operator) (operands : List Value) : Run Value :=
  if isConstant store op operands then op.apply store operands
  else return .node (← Run.fresh) op operands

end Operator

end LiveTemplate
