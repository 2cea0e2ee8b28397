import LiveTemplate.Proofs.Number.Numeral
import LiveTemplate.Proofs.Template.Literal
import LiveTemplate.Proofs.Template.Spelled
/-!
# The two readers of dimensions

A numeral with a unit can stand in an expression, and it can be a text that is read when a dimension is asked for.
Both readers find the same numeral and the same unit, and measure by the same screen.  But the numeral is made a
double twice over: the text has the nearest double, and the expression has a sum, which is rounded once more.  So
there are numerals of three digits for which the two dimensions are not the same.
-/

set_option autoImplicit false

namespace LiveTemplate

open Number (IsNearestDouble IsMultiple Rounds lastPlace ofDigits ofPoint)
open Numeral (IsShort Parts exact exists_parts fractionOf numeral_char whole places)
open Run (Ends Never)
open Template (numeralValue)

variable {numeral letters front behind : List Char} {unit : LengthUnit} {viewport : Viewport}

/-! ## Numerals -/

/-- The double that a text has for its numeral, all of whose digits are rounded at once. -/
def Numeral.rounded (numeral : List Char) : Float := ofPoint (whole numeral) (places numeral) 0

theorem Numeral.rounded_nearest (numeral : List Char) : IsNearestDouble (exact numeral) (rounded numeral) := by
  unfold rounded ofPoint
  rw [Int.zero_sub]
  exact Number.ofDecimal_nearest _ _

/-! ## Units -/

theorem LengthUnit.letters_cases (h : unit.letters? = some letters) :
    unit = .dp ∧ letters = ['d', 'p'] ∨ unit = .px ∧ letters = ['p', 'x'] ∨ unit = .vh ∧ letters = ['v', 'h'] ∨
      unit = .vw ∧ letters = ['v', 'w'] := by
  cases unit <;> simp_all [LengthUnit.letters?]

/-- The units of expressions are absolute. -/
theorem Viewport.resolve_absolute (h : unit.letters? = some letters) (viewport : Viewport) (x : Float) :
    viewport.resolve x unit = .absolute (viewport.resolve x unit).value := by
  rcases LengthUnit.letters_cases h with ⟨rfl, -⟩ | ⟨rfl, -⟩ | ⟨rfl, -⟩ | ⟨rfl, -⟩ <;> rfl

/-- The text with the numeral and the letters of the unit. -/
def spelledLength (numeral letters : List Char) : String := String.ofList (numeral ++ letters)

/-- The text as an expression. -/
def inExpression (numeral letters : List Char) : String :=
  String.ofList (['$', '\x7b'] ++ (numeral ++ letters ++ ['\x7d']))

/-! ## The reader of texts -/

namespace Dimension

open Text (trim skipBlank isBlank)
open Grammar (Starts starts_cons)

theorem mem_of_mem_trim {c : Char} {text : List Char} (h : c ∈ trim text) : c ∈ text := by
  have hinner := (List.dropWhile_sublist _).subset (List.mem_reverse.mp h)
  exact (List.dropWhile_sublist _).subset (List.mem_reverse.mp hinner)

/-- What the letters of a unit are to the reader: no number goes on with them, and they name the unit. -/
theorem letters_read (h : unit.letters? = some letters) :
    Starts (fun c => Reading.isDecimal c = false ∧ c ≠ '.') letters ∧ 'a' ∉ letters ∧
      Reading.exponent? letters = some (0, letters) ∧ Reading.unit? letters = some unit := by
  rcases LengthUnit.letters_cases h with ⟨rfl, rfl⟩ | ⟨rfl, rfl⟩ | ⟨rfl, rfl⟩ | ⟨rfl, rfl⟩ <;>
    exact ⟨starts_cons.mpr (by decide), by decide, rfl, rfl⟩

theorem sign_unsigned {c : Char} {rest : List Char} (hplus : c ≠ '+') (hminus : c ≠ '-') :
    Reading.sign (c :: rest) = (false, c :: rest) := by
  unfold Reading.sign
  split
  · next heq => exact absurd (List.cons.inj heq).1 hminus
  · next heq => exact absurd (List.cons.inj heq).1 hplus
  · rfl

theorem literal_parts (h : Parts numeral front behind) (hletters : unit.letters? = some letters) :
    Reading.literal? (numeral ++ letters) = some (⟨false, front, behind, 0⟩, letters) := by
  obtain ⟨hstarts, -, hexponent, -⟩ := letters_read hletters
  obtain ⟨hfront, hrest⟩ := h.found (p := Reading.isDecimal) (fun _ => id) (by decide) hstarts
  have hsign : Reading.sign (numeral ++ letters) = (false, numeral ++ letters) := by
    obtain ⟨c, rest, rfl⟩ := List.exists_cons_of_ne_nil h.ne_nil
    obtain ⟨-, hplus, hminus, -⟩ := numeral_char (h.chars c List.mem_cons_self)
    exact sign_unsigned hplus hminus
  unfold Reading.literal?
  rw [hsign]
  dsimp only
  rw [hfront]
  rcases hrest with ⟨hnone, hne, rfl⟩ | ⟨hpoint, hplaces, hend⟩
  · have hnonempty : ¬(front.isEmpty = true ∧ List.isEmpty ([] : List Char) = true) := by simpa using hne
    rw [hnone]
    rcases LengthUnit.letters_cases hletters with ⟨-, rfl⟩ | ⟨-, rfl⟩ | ⟨-, rfl⟩ | ⟨-, rfl⟩ <;>
      exact if_neg hnonempty
  · have hnonempty : ¬(front.isEmpty = true ∧ behind.isEmpty = true) := by
      simpa using h.nonempty
    simp only [hpoint]
    rw [hplaces, hend, if_neg hnonempty, hexponent]
    rfl

/-- **A numeral with a unit is read as a text** to the nearest double, measured by the screen. -/
theorem read_length (h : IsNumeral numeral) (hletters : unit.letters? = some letters) (viewport : Viewport) :
    read? viewport (spelledLength numeral letters) =
      some (viewport.resolve (Numeral.rounded numeral) unit) := by
  obtain ⟨front, behind, hparts⟩ := exists_parts h
  obtain ⟨rfl, rfl⟩ := hparts.eq
  obtain ⟨-, hno, -, hunit⟩ := letters_read hletters
  have hauto : trim (numeral ++ letters) ≠ ['a', 'u', 't', 'o'] := by
    intro htrim
    have hmem : 'a' ∈ numeral ++ letters := mem_of_mem_trim (htrim ▸ List.mem_cons_self)
    rcases List.mem_append.mp hmem with hnumeral | hletter
    · exact absurd (hparts.chars 'a' hnumeral) (by decide)
    · exact hno hletter
  have hblank : skipBlank (numeral ++ letters) = numeral ++ letters := by
    obtain ⟨c, rest, rfl⟩ := List.exists_cons_of_ne_nil hparts.ne_nil
    have hspace := (numeral_char (hparts.chars c List.mem_cons_self)).1
    exact List.dropWhile_cons_of_neg (by simpa using (Bool.or_eq_false_iff.mp hspace).1)
  unfold read? spelledLength
  rw [String.toList_ofList, if_neg (by simpa using hauto), hblank, literal_parts hparts hletters]
  show (Reading.unit? letters).bind _ = _
  rw [hunit]
  rfl

end Dimension

/-! ## The reader of expressions -/

namespace Template

theorem evaluate_length (h : IsNumeral numeral) (hletters : unit.letters? = some letters) (store : Store)
    (scope : ScopeId) :
    Ends (fun v => v = .ofDimension ((store.viewport scope).resolve (numeralValue numeral) unit)) Never
      (evaluate store scope (inExpression numeral letters)) := by
  have hnone : IsBlanks [] := by simp [IsBlanks]
  have hspelled : Enclosed ['$', '\x7b'] ['\x7d'] (Tree.leaf (.dimension numeral unit)).Spelled
      (inExpression numeral letters).toList :=
    ⟨[], _, [], hnone, ⟨h, letters, hletters, rfl⟩, hnone, String.toList_ofList⟩
  have hread := TreeGrammar.read_spelled hspelled trivial (show 1 < Grammar.depthLimit by decide)
  unfold evaluate
  rw [read_eq_parse]
  refine (parse_succeeds hread ⟨_, ⟨0, 0, []⟩, ⟨0, 0, []⟩, rfl⟩).bind ?_
  rintro _ ⟨v, rfl, e, e', hr⟩
  cases hr
  rw [Viewport.resolve_absolute hletters]
  exact .pure rfl

end Template

/-! ## Both readers -/

/-- Both readers give one absolute length. -/
def SameLength (store : Store) (scope : ScopeId) (numeral letters : List Char) : Prop :=
  ∃ length : Float, Dimension.read? (store.viewport scope) (spelledLength numeral letters) = some (.absolute length) ∧
    Ends (fun v => v = .absolute length) Never (Template.evaluate store scope (inExpression numeral letters))

/-- **What the two readers of dimensions agree on.**  In every context, every numeral with every unit is read by both
of them, to absolute lengths by the same screen.  The text has the nearest double for its numeral, and if the
expression has it as well, the two lengths are the same.  Otherwise they are not, as long as nothing is scaled.

With few digits the expression has the sum of the integer and of the nearest double to the fraction, rounded once
more.  This is the nearest double if the integer is zero, or if there is no fraction or one that is a double. -/
theorem lengths_read (h : IsNumeral numeral) (hletters : unit.letters? = some letters) (store : Store)
    (scope : ScopeId) :
    Dimension.read? (store.viewport scope) (spelledLength numeral letters) =
      some (.absolute ((store.viewport scope).resolve (Numeral.rounded numeral) unit).value) ∧
    Ends (fun v => v = .absolute ((store.viewport scope).resolve (numeralValue numeral) unit).value) Never
      (Template.evaluate store scope (inExpression numeral letters)) ∧
    IsNearestDouble (exact numeral) (Numeral.rounded numeral) ∧
    (IsNearestDouble (exact numeral) (numeralValue numeral) → SameLength store scope numeral letters) ∧
    (unit = .dp → SameLength store scope numeral letters → IsNearestDouble (exact numeral) (numeralValue numeral)) ∧
    (IsShort numeral →
      (∃ z : Float, Rounds (fractionOf numeral) z ∧
        IsNearestDouble (ofDigits (whole numeral) + Number.value z) (numeralValue numeral)) ∧
      (ofDigits (whole numeral) = 0 ∨ IsMultiple (fractionOf numeral) (lastPlace (fractionOf numeral)) →
        SameLength store scope numeral letters)) := by
  have htext := Dimension.read_length h hletters (store.viewport scope)
  have hliteral := Template.evaluate_length h hletters store scope
  rw [Viewport.resolve_absolute hletters] at htext hliteral
  have hnearest := Numeral.rounded_nearest numeral
  have hsame (hvalue : IsNearestDouble (exact numeral) (numeralValue numeral)) :
      SameLength store scope numeral letters := by
    rw [hvalue.unique hnearest] at hliteral
    exact ⟨_, htext, hliteral⟩
  refine ⟨htext, hliteral, hnearest, hsame, ?_, fun hshort => ⟨Numeral.numeralValue_short h hshort, fun hexact =>
    hsame (Numeral.numeralValue_nearest h hshort hexact)⟩⟩
  rintro rfl ⟨length, htext', hliteral'⟩
  -- a number of display-independent pixels is its own length
  obtain ⟨v, e', hr, hv⟩ := hliteral.succeeds ⟨0, 0, []⟩
  have hvalue : numeralValue numeral = length := Value.absolute.inj (hv.symm.trans (hliteral'.value hr))
  have hrounded : Numeral.rounded numeral = length :=
    Dimension.absolute.inj (Option.some.inj (htext.symm.trans htext'))
  rw [hvalue, ← hrounded]
  exact hnearest

/-- The fraction of `1.14` is rounded up, and the sum once more; without the one they are the same. -/
theorem lengths_read_fourteen :
    (IsNumeral ['1', '.', '1', '4'] ∧ LengthUnit.letters? .dp = some ['d', 'p'] ∧
      ¬SameLength Store.empty 0 ['1', '.', '1', '4'] ['d', 'p']) ∧
    IsNumeral ['.', '1', '4'] ∧ LengthUnit.letters? .vh = some ['v', 'h'] ∧ IsShort ['.', '1', '4'] ∧
      SameLength Store.empty 0 ['.', '1', '4'] ['v', 'h'] := by
  have hplaces : IsDigits ['1', '4'] := by simp [IsDigits, Grammar.isDecimalDigit]
  have hone : IsWhole ['1'] := .inr ⟨'1', [], rfl, by decide, by simp [IsDigits, Grammar.isDecimalDigit]⟩
  have hnumeral : IsNumeral ['1', '.', '1', '4'] := .inr (.inl ⟨['1'], ['1', '4'], hone, hplaces, rfl⟩)
  have hnumeral' : IsNumeral ['.', '1', '4'] := .inr (.inr ⟨'1', ['4'], hplaces, rfl⟩)
  have hshort : IsShort ['.', '1', '4'] := ⟨by decide, by decide, by decide⟩
  have hdp : LengthUnit.letters? .dp = some ['d', 'p'] := rfl
  have hvh : LengthUnit.letters? .vh = some ['v', 'h'] := rfl
  refine ⟨⟨hnumeral, hdp, fun hsame => ?_⟩, hnumeral', hvh, hshort, ?_⟩
  · obtain ⟨-, -, hnearest, -, honly, -⟩ := lengths_read hnumeral hdp Store.empty 0
    have hequal : numeralValue ['1', '.', '1', '4'] = Numeral.rounded ['1', '.', '1', '4'] :=
      (honly rfl hsame).unique hnearest
    exact absurd hequal (by decide +kernel)
  · obtain ⟨-, -, -, -, -, hfew⟩ := lengths_read hnumeral' hvh Store.empty 0
    exact (hfew hshort).2 (.inl rfl)

end LiveTemplate
