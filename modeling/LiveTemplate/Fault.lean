import LiveTemplate.Operator.Basic
import LiveTemplate.Value.Kind
/-!
# Faults

A fault is the breach of a contract: a value was asked for something that its kind does not
have, a container that cannot be edited was edited, or the steps of an expression did not fit
together.  Templates never cause one, whatever their text; a fault says that the caller was
wrong, and nothing is computed.  Every cause is listed with its wording.
-/

set_option autoImplicit false

namespace LiveTemplate

/-- A breach of a contract. -/
inductive Fault where
  /-- A value of one kind was expected, and one of another kind was there. -/
  | wrongKind (expected : String) (found : Kind)
  /-- A handle was asked for a kind whose values are their content. -/
  | inlineHandle (kind : Kind)
  | fixedArray
  | fixedMap
  /-- An operator was applied without an operand to take. -/
  | missingOperand
  /-- A run of operators had not one operand more than there are operators. -/
  | missingOperands (operators : Nat) (rank : Rank) (operands : Nat)
  | missingMarkers
  /-- A region was closed while operators waited. -/
  | unreducedOperators (count : Nat)
  /-- A region for one value held another number of them. -/
  | notSingle (count : Nat)
  | unmatchedClose
  | unclosedRegions
  /-- A sum of day counts left its word. -/
  | sumOverflow
deriving Repr, DecidableEq

/-- The wording of a fault. -/
def Fault.message : Fault → String
  | .wrongKind expected found => "expected a " ++ expected ++ " object, found " ++ found.name
  | .inlineHandle kind => kind.name ++ " values are not stored behind a payload"
  | .fixedArray => "array is not mutable"
  | .fixedMap => "map is not mutable"
  | .missingOperand => "stack underflow: missing operand"
  | .missingOperands operators rank operands =>
    "stack underflow: " ++ toString operators ++ " operators at " ++ rank.name ++ " with " ++
      toString operands ++ " operands"
  | .missingMarkers => "ternary reduction without its two markers"
  | .unreducedOperators count => toString count ++ " unreduced operators at region close"
  | .notSingle count => "single-value region holds " ++ toString count ++ " values"
  | .unmatchedClose => "close without a matching open"
  | .unclosedRegions => "regions left open at end of input"
  | .sumOverflow => "attempt to add with overflow"

end LiveTemplate
