import LiveTemplate.Proofs.Syntax.Running
import LiveTemplate.Proofs.Syntax.Spelling
/-!
# Where tokens end

A scanner takes as much as belongs to its token, so whether a spelling is read as it was meant
depends on what follows it.  A name, a word and a dimension must not be followed by a character of
a name, nor a number by a digit or a point.  An expression must not be followed by anything that
would go on with it: an access, or an operator that is not too loose for its place.  `Stops` says so
of a text, and what follows an operand in a spelling is shown to do so: a bracket that closes, a
comma, a colon, or a looser operator.  Here `<` before `=` and `?` before `?` have to be thought of,
and it is enough that no expression starts with either.
-/

set_option autoImplicit false

namespace LiveTemplate.Grammar

open Text (isBlank skipBlank)
open Rule

variable {α : Type} {text rest before letters : List Char} {c : Char}

/-- A character at the beginning of the text, if there is one, has a property. -/
def Starts (p : Char → Prop) (text : List Char) : Prop := ∀ c ∈ text.head?, p c

@[simp]
theorem starts_cons {p : Char → Prop} : Starts p (c :: rest) ↔ p c := by simp [Starts]

theorem Starts.mono {p q : Char → Prop} (h : Starts p text) (k : ∀ c, p c → q c) : Starts q text :=
  fun c hc => k c (h c hc)

/-- What starts a text of blanks and a further text. -/
theorem starts_blanks {p : Char → Prop} (hbefore : IsBlanks before)
    (hblank : ∀ c, isBlank c = true → p c)
    (h : Starts p rest) : Starts p (before ++ rest) := by
  cases before with
  | nil => exact h
  | cons b before => exact starts_cons.mpr (hblank b (hbefore b List.mem_cons_self))

/-- The text does not go on with a character of a name. -/
abbrev WordEnds (rest : List Char) : Prop := Starts (isNameChar · = false) rest

/-- What holds of all small codes holds of a character with a small code. -/
theorem char_of_codes {p : Char → Prop} {bound : Nat} (hall : ∀ n < bound, p (Char.ofNat n))
    (hc : c.toNat < bound) : p c := Char.ofNat_toNat c ▸ hall c.toNat hc

/-! ## Runs of characters -/

theorem takeWhile_run {p : Char → Bool} {run : List Char} (hrun : ∀ c ∈ run, p c = true)
    (hrest : Starts (p · = false) rest) : (run ++ rest).takeWhile p = run := by
  rw [List.takeWhile_append_of_pos hrun]
  cases rest with
  | nil => simp
  | cons c rest => simp [starts_cons.mp hrest]

theorem dropWhile_run {p : Char → Bool} {run : List Char} (hrun : ∀ c ∈ run, p c = true)
    (hrest : Starts (p · = false) rest) : (run ++ rest).dropWhile p = rest := by
  rw [List.dropWhile_append_of_pos hrun]
  cases rest with
  | nil => simp
  | cons c rest => simp [starts_cons.mp hrest]

theorem Parses.blanks (hbefore : IsBlanks before) (hrest : Starts (isBlank · = false) rest) :
    Parses Rule.blanks (before ++ rest) () rest := by
  unfold Parses Rule.blanks skipBlank
  rw [dropWhile_run hbefore hrest]

theorem Parses.noBlanks (hrest : Starts (isBlank · = false) rest) :
    Parses Rule.blanks rest () rest := by
  have hnone : IsBlanks [] := by simp [IsBlanks]
  exact Parses.blanks hnone hrest

theorem Parses.char (c : Char) (rest : List Char) : Parses (Rule.char c) (c :: rest) () rest :=
  .scan (by simp [literal?])

theorem Declines.char (h : Starts (· ≠ c) text) : Declines (Rule.char c) text := by
  apply Declines.scan
  cases text with
  | nil => rfl
  | cons d text =>
    have hne := starts_cons.mp h
    simp [literal?, Ne.symm hne]

/-! ## Words and names -/

theorem identifier_spelled (h : IsIdentifier letters) (hrest : WordEnds rest) :
    identifier? (letters ++ rest) = some (letters, rest) := by
  cases letters with
  | nil => exact h.elim
  | cons c letters =>
    simp only [List.cons_append, identifier?, if_pos h.1, takeWhile_run h.2 hrest,
      dropWhile_run h.2 hrest]

theorem identifier_none (h : Starts (isNameStart · = false) text) : identifier? text = none := by
  cases text with
  | nil => rfl
  | cons c text => simp [identifier?, starts_cons.mp h]

theorem wordEnd_spelled (hrest : WordEnds rest) : wordEnd? rest = some ((), rest) := by
  cases rest with
  | nil => rfl
  | cons c rest => simp [wordEnd?, starts_cons.mp hrest]

theorem literal_some {word after : List Char} (h : literal? word text = some ((), after)) :
    text = word ++ after := by
  induction word generalizing text with
  | nil =>
    simp only [literal?, Option.some.injEq, Prod.mk.injEq, true_and] at h
    exact h
  | cons c word ih =>
    cases text with
    | nil => cases h
    | cons d text =>
      simp only [literal?, beq_iff_eq] at h
      split at h
      · next heq =>
        subst heq
        rw [ih h, List.cons_append]
      · cases h

/-- A word is found in a name only where the name starts with it. -/
theorem literal_in_name {word after : List Char} (hword : ∀ c ∈ word, isNameChar c = true)
    (hrest : WordEnds rest) (h : literal? word (letters ++ rest) = some ((), after)) :
    ∃ more, letters = word ++ more ∧ after = more ++ rest := by
  obtain ⟨more, rfl, rfl⟩ | hinside := List.append_eq_append_iff.mp (literal_some h)
  · -- otherwise the rest would start with a character of the word
    cases more with
    | nil => exact ⟨[], by simp, rfl⟩
    | cons c more =>
      have hc := hword c (by simp)
      rw [starts_cons.mp hrest] at hc
      cases hc
  · exact hinside

theorem keyword_literal {leaf : Leaf} {after : List Char} (h : keyword? text = some (leaf, after)) :
    ∃ word ∈ reserved, (∀ c ∈ word, isNameChar c = true) ∧ literal? word text = some ((), after) := by
  unfold keyword? at h
  split at h
  · next hword =>
    cases h
    exact ⟨_, by decide, List.all_eq_true.mp rfl, hword⟩
  · split at h
    · next hword =>
      cases h
      exact ⟨_, by decide, List.all_eq_true.mp rfl, hword⟩
    · split at h
      · next hword =>
        cases h
        exact ⟨_, by decide, List.all_eq_true.mp rfl, hword⟩
      · cases h

theorem keyword_none (h : Starts (isNameStart · = false) text) : keyword? text = none := by
  cases text with
  | nil => rfl
  | cons c text =>
    have hne : ∀ d, isNameStart d = true → d ≠ c := by
      rintro d hd rfl
      rw [starts_cons.mp h] at hd
      cases hd
    have ht := hne 't' (by decide)
    have hf := hne 'f' (by decide)
    have hn := hne 'n' (by decide)
    simp [keyword?, literal?, ht, hf, hn]

theorem word_declines (h : Starts (isNameStart · = false) text) : Declines TreeGrammar.word text :=
  Declines.bind (.scan (keyword_none h))

/-- A name that is not reserved may start with a word, but then the word does not end there. -/
theorem word_declines_name (h : IsIdentifier letters) (hreserved : letters ∉ reserved)
    (hrest : WordEnds rest) : Declines TreeGrammar.word (letters ++ rest) := by
  unfold TreeGrammar.word
  cases hkeyword : keyword? (letters ++ rest) with
  | none => exact .bind (.scan hkeyword)
  | some found =>
    obtain ⟨leaf, after⟩ := found
    obtain ⟨word, hmem, hword, hliteral⟩ := keyword_literal hkeyword
    obtain ⟨more, rfl, rfl⟩ := literal_in_name hword hrest hliteral
    -- the word is not the whole name, since the name is not reserved
    refine Declines.afterwards (.scan hkeyword) (.bind (.scan ?_))
    cases more with
    | nil => exact absurd (by simpa using hmem) hreserved
    | cons c more =>
      have hc : isNameChar c = true := h.name_chars c (by simp)
      simp [wordEnd?, hc]

/-! ## Numbers -/

/-- The text does not go on with a digit or a point. -/
abbrev NumberEnds (rest : List Char) : Prop :=
  Starts (fun c => isDecimalDigit c = false ∧ c ≠ '.') rest

theorem places_none (h : Starts (· ≠ '.') rest) : places rest = ([], rest) := by
  cases rest with
  | nil => rfl
  | cons c rest =>
    unfold places
    split
    · next heq => exact absurd (List.cons.inj heq).1 (starts_cons.mp h)
    · rfl

theorem places_spelled {digits : List Char} (hdigits : IsDigits digits)
    (hrest : Starts (isDecimalDigit · = false) rest) :
    places ('.' :: (digits ++ rest)) = ('.' :: digits, rest) := by
  simp only [places, takeWhile_run hdigits hrest, dropWhile_run hdigits hrest]

/-- A whole part is read, and then the places. -/
theorem numeral_whole {whole : List Char} (hwhole : IsWhole whole)
    (hrest : Starts (isDecimalDigit · = false) rest) :
    numeral (whole ++ rest) = .done (whole ++ (places rest).1) (places rest).2 [] := by
  obtain rfl | ⟨c, digits, rfl, hzero, hdigits⟩ := hwhole
  · -- a zero before a digit would be a mistake
    cases rest with
    | nil => rfl
    | cons d rest =>
      have hd := starts_cons.mp hrest
      simp [numeral, hd]
  · have hc : isDecimalDigit c = true := hdigits c List.mem_cons_self
    have hpoint : c ≠ '.' := by
      rintro rfl
      revert hc
      decide
    have hmore : ∀ d ∈ digits, isDecimalDigit d = true := fun d hd => hdigits d (.tail _ hd)
    rw [List.cons_append]
    unfold numeral
    split
    · next heq => exact absurd (List.cons.inj heq).1 hzero
    · next heq => exact absurd (List.cons.inj heq).1 hpoint
    · next heq =>
      obtain ⟨rfl, rfl⟩ := List.cons.inj heq
      simp only [hc, if_true, takeWhile_run hmore hrest, dropWhile_run hmore hrest]
    · next heq => cases heq

theorem Parses.numeral {digits : List Char} (h : IsNumeral digits) (hrest : NumberEnds rest) :
    Parses Rule.numeral (digits ++ rest) digits rest := by
  have hdigit : Starts (isDecimalDigit · = false) rest := hrest.mono fun c hc => hc.1
  obtain hwhole | ⟨whole, digits, hwhole, hdigits, rfl⟩ | ⟨c, digits, hdigits, rfl⟩ := h
  · unfold Parses
    rw [numeral_whole hwhole hdigit, places_none (hrest.mono fun c hc => hc.2), List.append_nil]
  · -- the point ends the whole part
    unfold Parses
    rw [List.append_assoc, List.cons_append, numeral_whole hwhole (starts_cons.mpr (by decide)),
      places_spelled hdigits hdigit]
  · have hc : isDecimalDigit c = true := hdigits c List.mem_cons_self
    have hmore : ∀ d ∈ digits, isDecimalDigit d = true := fun d hd => hdigits d (.tail _ hd)
    unfold Parses
    simp only [List.cons_append, Rule.numeral, hc, if_true, takeWhile_run hmore hdigit,
      dropWhile_run hmore hdigit]

theorem Declines.numeral (h : NumberEnds text) : Declines Rule.numeral text := by
  cases text with
  | nil => rfl
  | cons c text =>
    obtain ⟨hc, hpoint⟩ := starts_cons.mp h
    have hzero : c ≠ '0' := by
      rintro rfl
      revert hc
      decide
    unfold Declines Rule.numeral
    split
    · next heq => exact absurd (List.cons.inj heq).1 hzero
    · next heq => exact absurd (List.cons.inj heq).1 hpoint
    · next heq =>
      obtain ⟨rfl, rfl⟩ := List.cons.inj heq
      simp [hc]
    · next heq => cases heq

theorem unit_spelled {unit : LengthUnit} (h : unit.letters? = some letters) (rest : List Char) :
    unit? (letters ++ rest) = some (unit, rest) := by
  cases unit <;> cases h <;> rfl

theorem unit_starts {unit : LengthUnit} (h : unit.letters? = some letters) (rest : List Char) :
    NumberEnds (letters ++ rest) := by
  cases unit <;> cases h <;> exact starts_cons.mpr (by decide)

theorem unit_none (h : WordEnds rest) : unit? rest = none := by
  unfold unit?
  split
  · exact absurd (starts_cons.mp h) (by decide)
  · exact absurd (starts_cons.mp h) (by decide)
  · exact absurd (starts_cons.mp h) (by decide)
  · exact absurd (starts_cons.mp h) (by decide)
  · rfl

/-! ## Operators -/

/-- An operator by the level of its rank, the question mark of a choice included. -/
def operatorAt : Nat → List Char → Option (Operator × List Char)
  | 3 => termOperator?
  | 4 => sumOperator?
  | 5 => comparisonOperator?
  | 6 => equalityOperator?
  | 7 => andOperator?
  | 8 => orOperator?
  | 9 => coalesceOperator?
  | 10 => fun
    | '?' :: rest => some (.choose, rest)
    | _ => none
  | _ => fun _ => none

/-- What may start an expression. -/
def isOpening (c : Char) : Bool :=
  isNameChar c || ['.', '@', '(', '[', '\x7b', '\x27', '\x22', '+', '-', '!'].contains c

/-- The text starts like an expression. -/
def Opens (text : List Char) : Prop := ∃ c rest, text = c :: rest ∧ isOpening c = true

theorem Opens.append (h : Opens text) (rest : List Char) : Opens (text ++ rest) := by
  obtain ⟨c, more, rfl, hc⟩ := h
  exact ⟨c, more ++ rest, rfl, hc⟩

theorem Opens.starts {p : Char → Prop} (h : Opens text) (k : ∀ c, isOpening c = true → p c) :
    Starts p text := by
  obtain ⟨c, rest, rfl, hc⟩ := h
  exact starts_cons.mpr (k c hc)

/-- What is true of each character of a list, by going through the list. -/
@[elab_as_elim]
theorem of_mem_list {p : Char → Prop} [DecidablePred p] {cs : List Char} (hc : c ∈ cs)
    (h : cs.all (fun c => decide (p c)) = true) : p c :=
  of_decide_eq_true (List.all_eq_true.mp h c hc)

/-- Characters are different if only one of them has a property. -/
theorem ne_of_class {p : Char → Bool} {d : Char} (hc : p c = true) (hd : p d = false) : c ≠ d := by
  rintro rfl
  rw [hc] at hd
  cases hd

theorem opening_not_blank (h : isOpening c = true) : isBlank c = false := by
  have h₁ := ne_of_class (d := ' ') h (by decide)
  have h₂ := ne_of_class (d := '\t') h (by decide)
  have h₃ := ne_of_class (d := '\r') h (by decide)
  have h₄ := ne_of_class (d := '\n') h (by decide)
  simp [isBlank, h₁, h₂, h₃, h₄]

/-- What follows completes no other operator: it is neither `=` nor `?`. -/
abbrev SymbolEnds (rest : List Char) : Prop := Starts (fun c => c ≠ '=' ∧ c ≠ '?') rest

theorem symbolEnds_blanks (hbefore : IsBlanks before) (h : Opens text) :
    SymbolEnds (before ++ text) :=
  starts_blanks hbefore
    (fun _ hc => ⟨ne_of_class hc (by decide), ne_of_class hc (by decide)⟩)
    (h.starts fun _ hc => ⟨ne_of_class hc (by decide), ne_of_class hc (by decide)⟩)

theorem operatorAt_spelled {op : Operator} (hop : op.isInfix = true) (hrest : SymbolEnds rest) :
    operatorAt op.rank.level (op.symbol ++ rest) = some (op, rest) := by
  cases op
  case less | greater =>
    -- an equals sign would make another operator of it
    cases rest with
    | nil => rfl
    | cons c rest =>
      have hc := (starts_cons.mp hrest).1
      show comparisonOperator? (_ :: c :: rest) = _
      simp [comparisonOperator?, hc]
  all_goals first | rfl | cases hop

/-- The characters that the operators of a level start with. -/
def marks : Nat → List Char
  | 3 => ['*', '/', '%']
  | 4 => ['+', '-']
  | 5 => ['<', '>']
  | 6 => ['=', '!']
  | 7 => ['&']
  | 8 => ['|']
  | 9 | 10 => ['?']
  | _ => []

theorem operatorAt_none {level : Nat} (h : Starts (· ∉ marks level) text) :
    operatorAt level text = none := by
  unfold operatorAt
  split
  · unfold termOperator?
    split <;> first | rfl | exact absurd (starts_cons.mp h) (by decide)
  · unfold sumOperator?
    split <;> first | rfl | exact absurd (starts_cons.mp h) (by decide)
  · unfold comparisonOperator?
    split <;> first | rfl | exact absurd (starts_cons.mp h) (by decide)
  · unfold equalityOperator?
    split <;> first | rfl | exact absurd (starts_cons.mp h) (by decide)
  · unfold andOperator?
    split <;> first | rfl | exact absurd (starts_cons.mp h) (by decide)
  · unfold orOperator?
    split <;> first | rfl | exact absurd (starts_cons.mp h) (by decide)
  · unfold coalesceOperator?
    split <;> first | rfl | exact absurd (starts_cons.mp h) (by decide)
  · dsimp only
    split <;> first | rfl | exact absurd (starts_cons.mp h) (by decide)
  · rfl

/-- The symbol of an operator does not start like one of a tighter level.  The question mark does,
but then it is followed by another one. -/
theorem operatorAt_tighter {op : Operator} (hop : op.isInfix = true) (hrest : SymbolEnds rest)
    {level : Nat} (h : level < op.rank.level) : operatorAt level (op.symbol ++ rest) = none := by
  by_cases hcoalesce : op = .choose ∧ level = 9
  · -- a single question mark is no operator of that level
    obtain ⟨rfl, rfl⟩ := hcoalesce
    cases rest with
    | nil => rfl
    | cons c rest =>
      have hc := (starts_cons.mp hrest).2
      show coalesceOperator? ('?' :: c :: rest) = none
      simp [coalesceOperator?, hc]
  · refine operatorAt_none ?_
    have hmarks : (List.range op.rank.level).all (fun level =>
        op == .choose && level == 9 || op.symbol.head?.any fun c => !(marks level).contains c) = true := by
      cases op <;> first | rfl | cases hop
    have hhead := List.all_eq_true.mp hmarks level (List.mem_range.mpr h)
    obtain ⟨c, hc, hmark⟩ : ∃ c, op.symbol.head? = some c ∧ c ∉ marks level := by
      simpa [Option.any_eq_true, hcoalesce] using hhead
    intro d hd
    rw [List.head?_append, hc] at hd
    cases hd
    exact hmark

/-! ## Where expressions end -/

/-- Nothing in the text goes on with an expression of the level or of a tighter one. -/
structure Stops (level : Nat) (rest : List Char) : Prop where
  word : WordEnds rest
  access : Starts (fun c => c ≠ '.' ∧ c ≠ '[' ∧ c ≠ '(') (skipBlank rest)
  operator : ∀ tighter ≤ level, operatorAt tighter (skipBlank rest) = none

theorem Stops.tighter {level level' : Nat} (h : Stops level rest) (hle : level' ≤ level) :
    Stops level' rest :=
  ⟨h.word, h.access, fun k hk => h.operator k (Nat.le_trans hk hle)⟩

theorem Stops.numberEnds {level : Nat} (h : Stops level rest) : NumberEnds rest := by
  intro c hc
  have hname := h.word c hc
  simp only [isNameChar, Bool.or_eq_false_iff] at hname
  refine ⟨hname.2, ?_⟩
  rintro rfl
  -- a point is no blank, so it would start an access
  cases rest with
  | nil => simp at hc
  | cons d rest =>
    obtain rfl : d = '.' := by simpa using hc
    exact (starts_cons.mp h.access).1 rfl

/-- No blank, no character of a name and no beginning of an access. -/
def isMark (c : Char) : Bool :=
  !isNameChar c && !isBlank c && !(['.', '[', '('].contains c)

theorem isMark_iff :
    isMark c = true ↔ isNameChar c = false ∧ isBlank c = false ∧ c ≠ '.' ∧ c ≠ '[' ∧ c ≠ '(' := by
  simp [isMark, and_assoc]

theorem wordEnds_blanks (hbefore : IsBlanks before) (h : WordEnds rest) :
    WordEnds (before ++ rest) := by
  refine starts_blanks hbefore (fun c hc => Bool.eq_false_iff.mpr fun hname => ?_) h
  have hopening : isOpening c = true := by simp [isOpening, hname]
  rw [opening_not_blank hopening] at hc
  cases hc

/-- After blanks, the text goes on with a mark that is no operator of the level. -/
theorem stops_mark {level : Nat} (hbefore : IsBlanks before) (hc : isMark c = true)
    (hoperator : ∀ tighter ≤ level, operatorAt tighter (c :: rest) = none) :
    Stops level (before ++ c :: rest) := by
  obtain ⟨hname, hblank, haccess⟩ := isMark_iff.mp hc
  have hskip : skipBlank (before ++ c :: rest) = c :: rest :=
    dropWhile_run hbefore (starts_cons.mpr hblank)
  refine ⟨wordEnds_blanks hbefore (starts_cons.mpr hname), ?_, ?_⟩
  · rw [hskip]
    exact starts_cons.mpr haccess
  · rwa [hskip]

/-- The marks that end what stands between brackets or commas. -/
def closers : List Char := [')', ']', '\x7d', ',', ':']

theorem stops_closer (level : Nat) (hbefore : IsBlanks before) (hc : c ∈ closers) :
    Stops level (before ++ c :: rest) := by
  refine stops_mark hbefore ?_ fun tighter _ => operatorAt_none (starts_cons.mpr ?_)
  · exact of_mem_list hc (by decide)
  · unfold marks
    split <;> exact of_mem_list hc (by decide)

theorem symbol_mark {op : Operator} (hop : op.isInfix = true) :
    ∃ c more, op.symbol = c :: more ∧ isMark c = true := by
  cases op <;> first | exact ⟨_, _, rfl, rfl⟩ | cases hop

theorem symbol_not_blank {op : Operator} (hop : op.isInfix = true) (rest : List Char) :
    Starts (isBlank · = false) (op.symbol ++ rest) := by
  obtain ⟨c, more, hcons, hc⟩ := symbol_mark hop
  rw [hcons]
  exact starts_cons.mpr (isMark_iff.mp hc).2.1

/-- An operator ends what binds more tightly. -/
theorem stops_operator {op : Operator} {level : Nat} (hop : op.isInfix = true)
    (hlevel : level < op.rank.level) (hbefore : IsBlanks before) (hrest : SymbolEnds rest) :
    Stops level (before ++ (op.symbol ++ rest)) := by
  obtain ⟨c, more, hcons, hc⟩ := symbol_mark hop
  rw [hcons, List.cons_append]
  refine stops_mark hbefore hc fun tighter hle => ?_
  rw [← List.cons_append, ← hcons]
  exact operatorAt_tighter hop hrest (Nat.lt_of_le_of_lt hle hlevel)

end LiveTemplate.Grammar
