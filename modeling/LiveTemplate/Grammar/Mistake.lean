import LiveTemplate.Text.Position
/-!
# Mistakes in a template

A template is rejected for one mistake, the first that is met.  A mistake has a cause and a
place, and both are in its wording.
-/

set_option autoImplicit false

namespace LiveTemplate

/-- What is wrong with a template. -/
inductive Mistake where
  | numberFormat
  | unexpected
  | unexpectedBeforeEnd
  | operandAfterTerm
  | operandAfterSum
  | operandAfterComparison
  | operandAfterEquality
  | operandAfterAnd
  | operandAfterOr
  | operandAfterCoalesce
  | expression
  | array
  | singleQuote
  | doubleQuote
  | mapColon
  | mapKey
  | map
  | choice
  | argumentsEnd
  | groupEnd
  | indexEnd
  | bindingEnd
  | tooDeep
deriving Repr, DecidableEq

/-- The wording of a cause. -/
def Mistake.message : Mistake → String
  | .numberFormat => "Invalid number format"
  | .unexpected => "Unexpected token"
  | .unexpectedBeforeEnd => "Unexpected token before end of string"
  | .operandAfterTerm => "Expected an operand after a multiplicative operator"
  | .operandAfterSum => "Expected an operand after an additive operator"
  | .operandAfterComparison => "Expected an operand after a comparison operator"
  | .operandAfterEquality => "Expected an operand after an equality operator"
  | .operandAfterAnd => "Expected an operand after '&&'"
  | .operandAfterOr => "Expected an operand after '||'"
  | .operandAfterCoalesce => "Expected an operand after '??'"
  | .expression => "Expected an expression"
  | .array => "Malformed array"
  | .singleQuote => "Unterminated single-quoted string"
  | .doubleQuote => "Unterminated double-quoted string"
  | .mapColon => "Expected ':' after a map key"
  | .mapKey => "Expected a quoted key in a map"
  | .map => "Malformed map"
  | .choice => "Malformed ternary expression"
  | .argumentsEnd => "Expected ')' to close the argument list"
  | .groupEnd => "Expected ')' to close the group"
  | .indexEnd => "Expected ']' to close the index"
  | .bindingEnd => "Expected '\x7d' to close the data binding"
  | .tooDeep => "Expression nesting is too deep"

/-- A mistake and where it is. -/
structure SyntaxError where
  cause : Mistake
  position : Position
deriving Repr, DecidableEq

namespace SyntaxError

/-- A mistake at a byte offset of a source. -/
def atOffset (cause : Mistake) (source : String) (offset : Nat) : SyntaxError :=
  ⟨cause, Position.ofOffset source offset⟩

/-- The wording of a mistake with its place. -/
def text (e : SyntaxError) : String := e.cause.message ++ " at " ++ e.position.text

/-- The wording as it is reported to whoever gave the template. -/
def report (e : SyntaxError) : String := "Parse error: " ++ e.text

end SyntaxError

end LiveTemplate
