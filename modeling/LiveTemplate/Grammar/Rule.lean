import LiveTemplate.Expression.Region
import LiveTemplate.Grammar.Mistake
/-!
# Rules of a grammar

A rule reads the beginning of a text.  On its way it emits steps, which put the expression
together, and it ends in one of three ways.  It is *done*, with a result and what it has not
read.  It *declines* the text, and another rule may be tried on it.  Or it has *failed*, with a
mistake and the place of it, and then nothing else is tried.

Steps that have been emitted stay emitted, also when the rule declines.  That a rule of this
grammar never declines after it has emitted something is a law about the rules, and nothing that
the combinators would see to.
-/

set_option autoImplicit false

namespace LiveTemplate

/-- An operand as it is written. -/
inductive Leaf where
  | null
  | truth (value : Bool)
  | text (value : String)
  | number (numeral : List Char)
  | dimension (numeral : List Char) (unit : LengthUnit)
  /-- A name, with its `@` if it names a resource. -/
  | name (value : String)
deriving Repr, DecidableEq

namespace Grammar

/-- The steps that put an expression together, with operands as they are written. -/
abbrev Script := List (Step Leaf)

/-- How a rule ends. -/
inductive Outcome (α : Type) where
  | done (value : α) (rest : List Char) (script : Script)
  | declined (script : Script)
  | failed (mistake : Mistake) (rest : List Char) (script : Script)
deriving Repr

namespace Outcome

/-- The outcome of a rule that had emitted some steps before. -/
def after {α : Type} (script : Script) : Outcome α → Outcome α
  | .done value rest more => .done value rest (script ++ more)
  | .declined more => .declined (script ++ more)
  | .failed mistake rest more => .failed mistake rest (script ++ more)

end Outcome

/-- A rule. -/
def Rule (α : Type) : Type := List Char → Outcome α

namespace Rule

variable {α β : Type}

/-- Read nothing. -/
protected def pure (value : α) : Rule α := fun text => .done value text []

/-- Read with one rule and then with another. -/
protected def bind (first : Rule α) (next : α → Rule β) : Rule β := fun text =>
  match first text with
  | .done value rest script => (next value rest).after script
  | .declined script => .declined script
  | .failed mistake rest script => .failed mistake rest script

instance : Monad Rule where
  pure := Rule.pure
  bind := Rule.bind

/-- Decline. -/
def decline : Rule α := fun _ => .declined []

/-- Fail where the text stands. -/
def fail (mistake : Mistake) : Rule α := fun text => .failed mistake text []

/-- Emit a step. -/
def emit (step : Step Leaf) : Rule Unit := fun text => .done () text [step]

/-- Read with a scanner that takes the beginning of a text or declines. -/
def scan (scanner : List Char → Option (α × List Char)) : Rule α := fun text =>
  match scanner text with
  | some (value, rest) => .done value rest []
  | none => .declined []

/-- The rule has to be done; declining is a mistake where the rule started. -/
def must (mistake : Mistake) (rule : Rule α) : Rule α := fun text =>
  match rule text with
  | .declined script => .failed mistake text script
  | outcome => outcome

/-- Try a rule; if it declines, nothing is read. -/
def optional (rule : Rule α) : Rule (Option α) := fun text =>
  match rule text with
  | .done value rest script => .done (some value) rest script
  | .declined script => .done none text script
  | .failed mistake rest script => .failed mistake rest script

/-- Try a rule; if it declines, read with another. -/
def orElse (first second : Rule α) : Rule α := fun text =>
  match first text with
  | .declined script => (second text).after script
  | outcome => outcome

/-- Repeat a rule until it declines, at most once for each character of a bound. -/
def repeatWithin (rule : Rule Unit) : List Char → Rule Unit
  | [] => Rule.pure ()
  | _ :: bound => fun text =>
    match rule text with
    | .done () rest script => (repeatWithin rule bound rest).after script
    | .declined script => .done () text script
    | .failed mistake rest script => .failed mistake rest script

/-- Repeat a rule that always reads something until it declines.  It cannot be repeated more
often than there are characters, so the text is its own bound. -/
def many (rule : Rule Unit) : Rule Unit := fun text => repeatWithin rule text text

end Rule

end Grammar

end LiveTemplate
