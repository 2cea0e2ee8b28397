import LiveTemplate.Proofs.Syntax.Reading
/-!
# Running the rules that read trees

The rules that read trees emit no steps, so that there is little to say of how one of them ends.
It *parses* a part of a text, with a result and what is left of the text, or it *declines*.  Here is
what follows for each way of combining rules.  Repeating a rule needs a reason to end: each part
that is parsed takes something of the text.
-/

set_option autoImplicit false

namespace LiveTemplate.Grammar

variable {α β : Type}

/-- The rule is done with the text, has this result, and leaves the rest. -/
def Parses (rule : Rule α) (text : List Char) (value : α) (rest : List Char) : Prop :=
  rule text = .done value rest []

/-- The rule declines the text. -/
def Declines (rule : Rule α) (text : List Char) : Prop := rule text = .declined []

/-- The rule is repeated, and takes something of the text each time. -/
inductive Repeats (rule : Rule α) : List Char → List α → List Char → Prop
  | nil (text : List Char) : Repeats rule text [] text
  | cons {text middle rest : List Char} {value : α} {values : List α} :
      Parses rule text value middle → middle.length < text.length →
      Repeats rule middle values rest → Repeats rule text (value :: values) rest

open Rule

variable {rule first second : Rule α} {next : α → Rule β} {text middle rest : List Char} {a : α} {b : β}

namespace Parses

theorem pure (a : α) (text : List Char) : Parses (Pure.pure a : Rule α) text a text := rfl

theorem bind (h : Parses first text a middle) (k : Parses (next a) middle b rest) :
    Parses (first >>= next) text b rest := by
  show Rule.bind first next text = _
  rw [Rule.bind, show first text = _ from h]
  show (next a middle).after [] = _
  rw [show next a middle = _ from k]
  rfl

theorem scan {scanner : List Char → Option (α × List Char)} (h : scanner text = some (a, rest)) :
    Parses (Rule.scan scanner) text a rest := by
  unfold Parses Rule.scan
  rw [h]

theorem must (h : Parses rule text a rest) (mistake : Mistake) :
    Parses (Rule.must mistake rule) text a rest := by
  unfold Parses Rule.must
  rw [show rule text = _ from h]

theorem optional (h : Parses rule text a rest) : Parses (Rule.optional rule) text (some a) rest := by
  unfold Parses Rule.optional
  rw [show rule text = _ from h]

theorem orElse (h : Parses first text a rest) : Parses (Rule.orElse first second) text a rest := by
  unfold Parses Rule.orElse
  rw [show first text = _ from h]

end Parses

namespace Declines

theorem bind (h : Declines first text) : Declines (first >>= next) text := by
  show Rule.bind first next text = _
  rw [Rule.bind, show first text = _ from h]

/-- The second of two rules declines, and with it the two. -/
theorem afterwards (h : Parses first text a middle) (k : Declines (next a) middle) :
    Declines (first >>= next) text := by
  show Rule.bind first next text = _
  rw [Rule.bind, show first text = _ from h]
  show (next a middle).after [] = _
  rw [show next a middle = _ from k]
  rfl

theorem scan {scanner : List Char → Option (α × List Char)} (h : scanner text = none) :
    Declines (Rule.scan scanner) text := by
  unfold Declines Rule.scan
  rw [h]

theorem optional (h : Declines rule text) : Parses (Rule.optional rule) text none text := by
  unfold Parses Rule.optional
  rw [show rule text = _ from h]

theorem orElse (h : Declines first text) (k : Parses second text a rest) :
    Parses (Rule.orElse first second) text a rest := by
  unfold Parses Rule.orElse
  rw [show first text = _ from h]
  show (second text).after [] = _
  rw [show second text = _ from k]
  rfl

theorem both (h : Declines first text) (k : Declines second text) :
    Declines (Rule.orElse first second) text := by
  unfold Declines Rule.orElse
  rw [show first text = _ from h]
  show (second text).after [] = _
  rw [show second text = _ from k]
  rfl

end Declines

namespace Repeats

variable {values : List α}

theorem append {more : List α} (h : Repeats rule text values middle)
    (k : Repeats rule middle more rest) : Repeats rule text (values ++ more) rest := by
  induction h with
  | nil => exact k
  | cons hparse hless _ ih => exact .cons hparse hless (ih k)

/-- A rule that declines in the end has been repeated to the end. -/
theorem collect (h : Repeats rule text values rest) (hend : Declines rule rest) :
    Parses (Rule.collect rule) text values rest := by
  suffices hwithin : ∀ bound : List Char, text.length ≤ bound.length →
      Parses (Rule.collectWithin rule bound) text values rest from hwithin text (Nat.le_refl _)
  induction h with
  | nil text =>
    intro bound _
    cases bound with
    | nil => exact .pure _ _
    | cons _ bound => exact hend.optional.bind (.pure _ _)
  | cons hparse hless _ ih =>
    intro bound hbound
    cases bound with
    | nil => exact absurd (Nat.lt_of_lt_of_le hless hbound) (Nat.not_lt_zero _)
    | cons _ bound =>
      refine hparse.optional.bind ((ih hend bound ?_).bind (.pure _ _))
      exact Nat.le_of_lt_succ (Nat.lt_of_lt_of_le hless hbound)

end Repeats

end LiveTemplate.Grammar
