import LiveTemplate.Proofs.Syntax.Tokens
import Mathlib.Data.List.TakeWhile
/-!
# What a rule takes

A scanner takes the beginning of a text.  Here is what it can have taken: a name is a letter and
what may follow one, a number is a numeral, an operator of a level is the symbol of an operator of
that level, and literal text goes up to where an expression starts or to the quotation mark.  This
is the converse of what `Tokens` says, and it is simpler, since it does not matter what follows the
token.

The rules that read trees are taken apart in the same way: `Completes` says that a rule is done with
a text, and for each way of combining rules there is an equivalence that says what its parts have
done.
-/

set_option autoImplicit false

namespace LiveTemplate

/-- The text begins with one that has a property, and goes on with the rest. -/
def Begins (p : List Char → Prop) (text rest : List Char) : Prop :=
  ∃ used, p used ∧ text = used ++ rest

theorem Begins.mono {p q : List Char → Prop} {text rest : List Char} (h : Begins p text rest)
    (hpq : ∀ used, p used → q used) : Begins q text rest := by
  obtain ⟨used, hused, rfl⟩ := h
  exact ⟨used, hpq used hused, rfl⟩

namespace Grammar

open Text (isBlank skipBlank)
open Rule

/-! ## Rules that are done -/

section

variable {α β : Type}

/-- The rule is done with the text, whatever it has emitted, has this result, and leaves the rest. -/
def Completes (rule : Rule α) (text : List Char) (value : α) (rest : List Char) : Prop :=
  ∃ script, rule text = .done value rest script

/-- The rule has declined the text, whatever it has emitted. -/
def Passes (rule : Rule α) (text : List Char) : Prop := ∃ script, rule text = .declined script

variable {rule first second : Rule α} {next : α → Rule β} {text rest : List Char} {a a' : α} {b : β}

theorem completes_after {script : Script} {outcome : Outcome α} :
    (∃ more, outcome.after script = .done a rest more) ↔ ∃ more, outcome = .done a rest more := by
  cases outcome <;> simp [Outcome.after]

theorem completes_pure : Completes (pure a : Rule α) text a' rest ↔ a' = a ∧ rest = text := by
  constructor
  · rintro ⟨_, h⟩
    cases h
    exact ⟨rfl, rfl⟩
  · rintro ⟨rfl, rfl⟩
    exact ⟨[], rfl⟩

theorem completes_bind : Completes (first >>= next) text b rest ↔
    ∃ a middle, Completes first text a middle ∧ Completes (next a) middle b rest := by
  show (∃ script, Rule.bind first next text = _) ↔ _
  unfold Rule.bind Completes
  cases first text with
  | done a middle script =>
    rw [completes_after]
    constructor
    · exact fun h => ⟨a, middle, ⟨script, rfl⟩, h⟩
    · rintro ⟨_, _, ⟨_, h⟩, k⟩
      cases h
      exact k
  | declined script => simp
  | failed mistake rest script => simp

theorem completes_scan {scanner : List Char → Option (α × List Char)} :
    Completes (scan scanner) text a rest ↔ scanner text = some (a, rest) := by
  unfold Completes scan
  rcases scanner text with _ | ⟨found, after⟩
  · simp
  · simp [eq_comm]

theorem completes_must {mistake : Mistake} :
    Completes (must mistake rule) text a rest ↔ Completes rule text a rest := by
  unfold Completes must
  cases rule text <;> simp

theorem completes_optional {found : Option α} : Completes (Rule.optional rule) text found rest ↔
    (∃ a, found = some a ∧ Completes rule text a rest) ∨
      found = none ∧ rest = text ∧ Passes rule text := by
  unfold Completes Rule.optional Passes
  cases rule text with
  | done a middle script => simp [eq_comm]
  | declined script => simp [eq_comm]
  | failed mistake middle script => simp

theorem completes_orElse : Completes (orElse first second) text a rest ↔
    Completes first text a rest ∨ Passes first text ∧ Completes second text a rest := by
  unfold Completes orElse Passes
  cases first text with
  | done a middle script => simp
  | declined script => simp [completes_after]
  | failed mistake middle script => simp

theorem completes_char {c : Char} {u : Unit} : Completes (char c) text u rest ↔ text = c :: rest := by
  unfold char
  rw [completes_scan]
  constructor
  · exact literal_some
  · rintro rfl
    simp [literal?]

theorem completes_blanks {u : Unit} : Completes blanks text u rest ↔
    Begins IsBlanks text rest ∧ Starts (isBlank · = false) rest := by
  have hdone : Completes blanks text u rest ↔ skipBlank text = rest := by
    unfold Completes blanks
    simp
  rw [hdone]
  constructor
  · rintro rfl
    refine ⟨⟨text.takeWhile isBlank, fun c hc => List.mem_takeWhile_imp hc, ?_⟩, fun c hc => ?_⟩
    · exact (List.takeWhile_append_dropWhile).symm
    · exact Bool.eq_false_iff.mpr fun hblank => by
        have hnot := List.head?_dropWhile_not isBlank text
        rw [show (List.dropWhile isBlank text).head? = some c from hc] at hnot
        simp [hblank] at hnot
  · rintro ⟨⟨before, hbefore, rfl⟩, hrest⟩
    exact dropWhile_run hbefore hrest

/-- What is true of a repeated rule follows the repetitions. -/
theorem Completes.collect {motive : List Char → List α → List Char → Prop}
    (nil : ∀ text, motive text [] text)
    (cons : ∀ {text a middle values rest}, Completes rule text a middle → motive middle values rest →
      motive text (a :: values) rest)
    {values : List α} (h : Completes (Rule.collect rule) text values rest) :
    motive text values rest := by
  suffices hwithin : ∀ (bound : List Char) {text values},
      Completes (Rule.collectWithin rule bound) text values rest → motive text values rest from
    hwithin text h
  intro bound
  induction bound with
  | nil =>
    intro text values h
    obtain ⟨rfl, rfl⟩ := completes_pure.mp h
    exact nil _
  | cons _ bound ih =>
    intro text values h
    obtain ⟨_, middle, htried, hafter⟩ := completes_bind.mp h
    obtain ⟨a, rfl, hfirst⟩ | ⟨rfl, rfl, -⟩ := completes_optional.mp htried
    · obtain ⟨more, last, hmore, hlast⟩ := completes_bind.mp hafter
      obtain ⟨rfl, rfl⟩ := completes_pure.mp hlast
      exact cons hfirst (ih hmore)
    · obtain ⟨rfl, rfl⟩ := completes_pure.mp hafter
      exact nil _

end

/-! ## Tokens -/

variable {text rest letters digits : List Char}

theorem identifier_some (h : identifier? text = some (letters, rest)) :
    IsIdentifier letters ∧ text = letters ++ rest := by
  cases text with
  | nil => cases h
  | cons c text =>
    simp only [identifier?] at h
    split at h
    · next hc =>
      cases h
      refine ⟨⟨hc, fun d hd => List.mem_takeWhile_imp hd⟩, ?_⟩
      rw [List.cons_append, List.takeWhile_append_dropWhile]
    · cases h

theorem wordEnd_some (h : wordEnd? text = some ((), rest)) : text = rest := by
  cases text with
  | nil => cases h; rfl
  | cons c text =>
    simp only [wordEnd?] at h
    split at h
    · cases h
    · cases h; rfl

theorem keyword_some {leaf : Leaf} (h : keyword? text = some (leaf, rest)) :
    Begins leaf.Spelled text rest := by
  unfold keyword? at h
  split at h
  · next hword =>
    cases h
    exact ⟨_, rfl, literal_some hword⟩
  · split at h
    · next hword =>
      cases h
      exact ⟨_, rfl, literal_some hword⟩
    · split at h
      · next hword =>
        cases h
        exact ⟨_, rfl, literal_some hword⟩
      · cases h

theorem unit_some {unit : LengthUnit} (h : unit? text = some (unit, rest)) :
    ∃ letters, unit.letters? = some letters ∧ text = letters ++ rest := by
  unfold unit? at h
  split at h <;> cases h <;> exact ⟨_, rfl, rfl⟩

theorem digits_taken (text : List Char) : IsDigits (text.takeWhile isDecimalDigit) :=
  fun _ hc => List.mem_takeWhile_imp hc

/-- After a whole part there are places or none. -/
theorem places_taken {whole : List Char} (hwhole : IsWhole whole) (text : List Char) :
    IsNumeral (whole ++ (places text).1) ∧ text = (places text).1 ++ (places text).2 := by
  unfold places
  split
  · next rest =>
    refine ⟨.inr (.inl ⟨whole, _, hwhole, digits_taken rest, rfl⟩), ?_⟩
    rw [List.cons_append, List.takeWhile_append_dropWhile]
  · rw [List.append_nil]
    exact ⟨.inl hwhole, rfl⟩

theorem completes_numeral (h : Completes numeral text digits rest) :
    IsNumeral digits ∧ text = digits ++ rest := by
  obtain ⟨script, h⟩ := h
  unfold numeral at h
  split at h
  · next c more =>
    split at h
    · cases h
    · cases h
      obtain ⟨hnumeral, hsplit⟩ := places_taken (.inl rfl) (c :: more)
      exact ⟨hnumeral, congrArg ('0' :: ·) hsplit⟩
  · next c more =>
    split at h
    · next hc =>
      cases h
      refine ⟨.inr (.inr ⟨c, _, ?_, rfl⟩), ?_⟩
      · intro d hd
        obtain rfl | hd := List.mem_cons.mp hd
        · exact hc
        · exact digits_taken more d hd
      · rw [List.cons_append, List.cons_append, List.takeWhile_append_dropWhile]
    · cases h
  · next c more hzero hpoint =>
    split at h
    · next hc =>
      cases h
      have hwhole : IsWhole (c :: more.takeWhile isDecimalDigit) := by
        cases more with
        | nil =>
          by_cases hc0 : c = '0'
          · exact .inl (by rw [hc0]; rfl)
          · exact .inr ⟨c, [], rfl, hc0, by simpa [IsDigits] using hc⟩
        | cons d more =>
          refine .inr ⟨c, _, rfl, fun hc0 => hzero d more hc0 rfl, fun e he => ?_⟩
          obtain rfl | he := List.mem_cons.mp he
          · exact hc
          · exact digits_taken _ e he
      obtain ⟨hnumeral, hsplit⟩ := places_taken hwhole (more.dropWhile isDecimalDigit)
      refine ⟨hnumeral, ?_⟩
      show c :: more = (c :: more.takeWhile isDecimalDigit) ++ (places _).1 ++ (places _).2
      rw [List.append_assoc, ← hsplit, List.cons_append, List.takeWhile_append_dropWhile]
    · cases h
  · cases h

/-- The signs before an operand. -/
theorem signs_taken {ops : List Operator} (h : signs text = (ops, rest)) :
    (∀ op ∈ ops, op.isSign = true) ∧ text = ops.flatMap Operator.symbol ++ rest := by
  induction text generalizing ops with
  | nil =>
    cases h
    exact ⟨by simp, rfl⟩
  | cons c text ih =>
    unfold signs at h
    split at h
    · next op _ hop =>
      cases h
      obtain ⟨hsigns, hsplit⟩ := ih rfl
      have hsign : op.isSign = true ∧ op.symbol = [c] := by
        unfold unaryOperator? at hop
        split at hop <;> cases hop
        all_goals
          next heq =>
          cases heq
          exact ⟨rfl, rfl⟩
      refine ⟨by simpa using ⟨hsign.1, hsigns⟩, ?_⟩
      rw [List.flatMap_cons, hsign.2, List.append_assoc, ← hsplit]
      rfl
    · cases h
      exact ⟨by simp, rfl⟩

/-- An operator of a level is spelled by its symbol. -/
theorem operatorAt_some {level : Nat} {op : Operator} (h : operatorAt level text = some (op, rest)) :
    op.isInfix = true ∧ op.rank.level = level ∧ text = op.symbol ++ rest := by
  unfold operatorAt at h
  split at h
  case h_9 => cases h
  all_goals
    simp only [termOperator?, sumOperator?, comparisonOperator?, equalityOperator?, andOperator?,
      orOperator?, coalesceOperator?] at h
    split at h <;> cases h
    all_goals exact ⟨rfl, rfl, rfl⟩

/-- Literal text goes up to where it ends, and not further. -/
theorem literalText_taken {quote : Option Char} {raw : List Char}
    (h : literalText quote text = (raw, rest)) :
    text = raw ++ rest ∧ (∀ q ∈ quote, q ∉ raw) ∧ ¬['$', '\x7b'] <:+: raw ∧
      literalText quote rest = ([], rest) := by
  induction text generalizing raw with
  | nil =>
    cases h
    exact ⟨rfl, by simp, by decide, rfl⟩
  | cons c text ih =>
    have hwhole := h
    unfold literalText at h
    split at h
    · next heq =>
      cases h
      exact ⟨heq, by simp, by decide, rfl⟩
    · next hopen heq =>
      obtain ⟨rfl, rfl⟩ := List.cons.inj heq
      split at h
      · cases h
        exact ⟨rfl, by simp, by decide, hwhole⟩
      · next hquote =>
        cases h
        obtain ⟨hsplit, hmark, hraw, hend⟩ := ih rfl
        refine ⟨congrArg (c :: ·) hsplit, ?_, ?_, hend⟩
        · rintro q rfl
          simpa using ⟨fun hq => hquote (by simp [hq]), hmark q rfl⟩
        · intro hinside
          obtain ⟨more, hprefix⟩ | hinside := List.infix_cons_iff.mp hinside
          · -- an expression would start here
            obtain ⟨rfl, hbrace⟩ := List.cons.inj hprefix
            rw [← hbrace] at hsplit
            exact hopen _ rfl hsplit
          · exact hraw hinside
    · next heq => cases heq

end Grammar

end LiveTemplate
