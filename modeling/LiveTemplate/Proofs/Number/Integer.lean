import LiveTemplate.Proofs.Library.Words
import LiveTemplate.Proofs.Syntax.Tokens
import Mathlib.Data.List.TakeWhile
import Mathlib.Data.Nat.Digits.Defs
/-!
# What is read as an integer

The reader of integers answers with zero for whatever it cannot read, so its answer alone does not say what
it took of the text.  `Reads` says it: white space as far as it goes, a sign if there is one, the mark of the
radix if the base allows it, and digits as far as they go.  There are such parts of each text, and the answer
is the exact value of the digits, if there are digits and the value can be held in a word.

The reader checks each partial product and each partial sum, and negative numbers grow downwards.  Since the
magnitude only grows from digit to digit, a step leaves its word only if the whole number does
(`foldlM_appendDigit`).
-/

set_option autoImplicit false

namespace LiveTemplate.Integer

open Text (digitValue isDigitOf isSpace)
open Grammar (Starts starts_cons takeWhile_run dropWhile_run)
open Number (InWord)

/-! ## The parts of a text -/

/-- The text starts with the mark of a hexadecimal number and a digit behind it. -/
def HexMarked (text : List Char) : Prop :=
  ∃ x d rest, text = '0' :: x :: d :: rest ∧ (x = 'x' ∨ x = 'X') ∧ isDigitOf 16 d = true

/-- The mark that a text without its sign starts with, and the radix of the digits behind it.  Base zero is
inferred: sixteen from the hexadecimal mark, eight from a leading zero, which is a digit too, otherwise ten.
Base sixteen may have the mark. -/
inductive Marks (base : Nat) (text : List Char) : List Char → Nat → Prop where
  | hexadecimal : base = 0 ∨ base = 16 → HexMarked text → Marks base text (text.take 2) 16
  | octal : base = 0 → ¬HexMarked text → text.head? = some '0' → Marks base text [] 8
  | decimal : base = 0 → text.head? ≠ some '0' → Marks base text [] 10
  | plain : base ≠ 0 → ¬(base = 16 ∧ HexMarked text) → Marks base text [] base

/-- A text taken apart. -/
structure Parts where
  blanks : List Char
  sign : List Char
  mark : List Char
  digits : List Char
  rest : List Char
  radix : Nat

/-- What stands behind the sign. -/
def Parts.body (parts : Parts) : List Char := parts.mark ++ parts.digits ++ parts.rest

/-- The number that digits stand for, the last one being that of the ones. -/
def magnitude (radix : Nat) (digits : List Char) : Nat :=
  Nat.ofDigits radix (digits.map digitValue).reverse

/-- The number with its sign. -/
def signed (negative : Bool) (magnitude : Nat) : Int := if negative then -magnitude else magnitude

/-- The exact value of the digits, with the sign. -/
def Parts.value (parts : Parts) : Int :=
  signed (parts.sign == ['-']) (magnitude parts.radix parts.digits)

/-- **What is read of a text** in a base. -/
structure Reads (base : Nat) (text : List Char) (parts : Parts) : Prop where
  whole : text = parts.blanks ++ (parts.sign ++ parts.body)
  blanks : ∀ c ∈ parts.blanks, isSpace c = true
  /-- The white space ends there. -/
  starts : Starts (isSpace · = false) (parts.sign ++ parts.body)
  sign : parts.sign = [] ∨ parts.sign = ['+'] ∨ parts.sign = ['-']
  unsigned : parts.sign = [] → Starts (fun c => c ≠ '+' ∧ c ≠ '-') parts.body
  mark : Marks base parts.body parts.mark parts.radix
  digits : ∀ c ∈ parts.digits, isDigitOf parts.radix c = true
  /-- The digits end there. -/
  rest : Starts (isDigitOf parts.radix · = false) parts.rest

/-! ## Digit after digit -/

variable {base radix : Nat} {negative : Bool} {c : Char} {text body sign mark digits rest : List Char}

theorem magnitude_append (digits : List Char) (c : Char) :
    magnitude radix (digits ++ [c]) = magnitude radix digits * radix + digitValue c := by
  unfold magnitude
  simp only [List.map_append, List.map_cons, List.map_nil, List.reverse_append, List.reverse_cons,
    List.reverse_nil, List.nil_append, List.cons_append, Nat.ofDigits_cons]
  rw [Nat.add_comm, Nat.mul_comm]

theorem magnitude_append_le (hradix : 0 < radix) (before digits : List Char) :
    magnitude radix before ≤ magnitude radix (before ++ digits) := by
  induction digits generalizing before with
  | nil => rw [List.append_nil]
  | cons c digits ih =>
    have hlater := ih (before ++ [c])
    have hstep := Nat.le_mul_of_pos_right (magnitude radix before) hradix
    rw [magnitude_append, List.append_assoc, List.singleton_append] at hlater
    omega

/-- Numbers closer to zero can be held in a word. -/
theorem inWord_signed_of_le {m n : Nat} (hle : m ≤ n) (h : InWord (signed negative n)) :
    InWord (signed negative m) := by
  unfold InWord signed Number.minInt64 Number.maxInt64 at *
  cases negative <;> simp only [if_true, Bool.false_eq_true, if_false] at * <;> omega

/-- The product is checked as well as the sum, but it is no farther from zero. -/
theorem appendDigit_signed (m : Nat) :
    appendDigit radix negative (signed negative m) c = checked (signed negative (m * radix + digitValue c)) := by
  have hproduct : signed negative m * radix = signed negative (m * radix) := by
    unfold signed
    cases negative <;> simp
  have hsum : (if negative then signed negative (m * radix) - digitValue c
      else signed negative (m * radix) + digitValue c) = signed negative (m * radix + digitValue c) := by
    unfold signed
    cases negative with
    | false => simp
    | true =>
      simp
      omega
  unfold appendDigit
  rw [hproduct]
  by_cases h : InWord (signed negative (m * radix))
  · rw [bind_some (checked_some h), hsum]
  · rw [checked_none h, checked_none fun hlarger => h (inWord_signed_of_le (Nat.le_add_right _ _) hlarger)]
    rfl

/-- **All the digits are read as one number**: from a partial number that can be held in a word, the reader
goes on to the whole number, and there is none only if that cannot be held in a word. -/
theorem foldlM_appendDigit (hradix : 0 < radix) (before : List Char)
    (h : InWord (signed negative (magnitude radix before))) (digits : List Char) :
    digits.foldlM (appendDigit radix negative) (signed negative (magnitude radix before))
      = checked (signed negative (magnitude radix (before ++ digits))) := by
  induction digits generalizing before with
  | nil => rw [List.append_nil, checked_some h, List.foldlM_nil, Option.pure_def]
  | cons c digits ih =>
    rw [List.foldlM_cons, appendDigit_signed, ← magnitude_append]
    by_cases hnext : InWord (signed negative (magnitude radix (before ++ [c])))
    · rw [bind_some (checked_some hnext), ih _ hnext, List.append_assoc, List.singleton_append]
    · -- the whole number is no closer to zero than the number so far
      have hle := magnitude_append_le hradix (before ++ [c]) digits
      rw [List.append_assoc, List.singleton_append] at hle
      rw [checked_none hnext, checked_none fun hwhole => hnext (inWord_signed_of_le hle hwhole)]
      rfl

theorem foldlM_digits (hradix : 0 < radix) (digits : List Char) :
    (digits.foldlM (appendDigit radix negative) 0).getD 0
      = if InWord (signed negative (magnitude radix digits)) then signed negative (magnitude radix digits)
        else 0 := by
  have hzero : signed negative (magnitude radix []) = 0 := by cases negative <;> rfl
  have hfold := foldlM_appendDigit hradix [] (by rw [hzero]; decide) digits
  rw [hzero, List.nil_append] at hfold
  rw [hfold]
  split
  · next h => rw [checked_some h, Option.getD_some]
  · next h => rw [checked_none h, Option.getD_none]

/-! ## The mark and the sign -/

theorem hasHexMark_iff : hasHexMark text = true ↔ HexMarked text := by
  unfold HexMarked
  fun_cases hasHexMark text with
  | case1 x d rest =>
    simp only [Bool.and_eq_true, Bool.or_eq_true, beq_iff_eq, List.cons.injEq, true_and]
    constructor
    · intro h
      exact ⟨x, d, rest, ⟨rfl, rfl, rfl⟩, h⟩
    · rintro ⟨_, _, _, ⟨rfl, rfl, rfl⟩, h⟩
      exact h
  | case2 text hno =>
    refine ⟨nofun, ?_⟩
    rintro ⟨x, d, rest, rfl, -⟩
    exact (hno x d rest rfl).elim

/-- The radix and the text behind the mark. -/
theorem radix_of_marks (h : Marks base body mark radix) :
    Integer.radix base body = (radix, body.drop mark.length) := by
  unfold Integer.radix
  cases h with
  | hexadecimal hbase hhex =>
    have hlength : (body.take 2).length = 2 := by
      obtain ⟨x, d, rest, rfl, -⟩ := hhex
      rfl
    rw [hasHexMark_iff.mpr hhex, hlength]
    rcases hbase with rfl | rfl <;> rfl
  | octal hbase hhex hzero =>
    subst hbase
    rw [Bool.eq_false_iff.mpr (mt hasHexMark_iff.mp hhex)]
    obtain ⟨rest, rfl⟩ := List.head?_eq_some_iff.mp hzero
    rfl
  | decimal hbase hzero =>
    subst hbase
    have hhex : hasHexMark body = false := by
      refine Bool.eq_false_iff.mpr (mt hasHexMark_iff.mp ?_)
      rintro ⟨x, d, rest, rfl, -⟩
      exact hzero rfl
    rw [hhex]
    simp only [BEq.rfl, if_true, Bool.false_eq_true, if_false, List.length_nil, List.drop_zero]
    split
    · exact absurd rfl hzero
    · rfl
  | plain hbase hhex =>
    rw [if_neg (by simpa using hbase), if_neg]
    · rfl
    · rwa [beq_iff_eq, hasHexMark_iff]

theorem exists_marks (base : Nat) (body : List Char) : ∃ mark after radix,
    body = mark ++ after ∧ Marks base body mark radix := by
  by_cases hhex : (base = 0 ∨ base = 16) ∧ HexMarked body
  · exact ⟨_, _, _, (List.take_append_drop 2 body).symm, .hexadecimal hhex.1 hhex.2⟩
  · by_cases hbase : base = 0
    · have hno : ¬HexMarked body := fun h => hhex ⟨.inl hbase, h⟩
      by_cases hzero : body.head? = some '0'
      · exact ⟨[], body, _, rfl, .octal hbase hno hzero⟩
      · exact ⟨[], body, _, rfl, .decimal hbase hzero⟩
    · exact ⟨[], body, _, rfl, .plain hbase fun h => hhex ⟨.inr h.1, h.2⟩⟩

theorem radix_pos (h : Marks base body mark radix) : 0 < radix := by
  cases h with
  | plain hbase => exact Nat.pos_of_ne_zero hbase
  | _ => decide

theorem exists_sign (start : List Char) : ∃ sign body, start = sign ++ body ∧
    (sign = [] ∨ sign = ['+'] ∨ sign = ['-']) ∧
      (sign = [] → Starts (fun c => c ≠ '+' ∧ c ≠ '-') body) := by
  cases start with
  | nil => exact ⟨[], [], rfl, .inl rfl, fun _ => by simp [Starts]⟩
  | cons c rest =>
    by_cases hplus : c = '+'
    · exact ⟨['+'], rest, by rw [hplus]; rfl, .inr (.inl rfl), fun hnone => absurd hnone (List.cons_ne_nil _ _)⟩
    · by_cases hminus : c = '-'
      · exact ⟨['-'], rest, by rw [hminus]; rfl, .inr (.inr rfl), fun hnone => absurd hnone (List.cons_ne_nil _ _)⟩
      · exact ⟨[], c :: rest, rfl, .inl rfl, fun _ => starts_cons.mpr ⟨hplus, hminus⟩⟩

/-! ## Reading -/

/-- Each text has parts that are read. -/
theorem exists_reads (base : Nat) (text : List Char) : ∃ parts, Reads base text parts := by
  have hends (p : Char → Bool) (text : List Char) : Starts (p · = false) (text.dropWhile p) := by
    intro c hc
    have hnot := List.head?_dropWhile_not p text
    rw [show (text.dropWhile p).head? = some c from hc] at hnot
    simpa using hnot
  obtain ⟨sign, body, hstart, hsign, hunsigned⟩ := exists_sign (text.dropWhile isSpace)
  obtain ⟨mark, after, radix, rfl, hmark⟩ := exists_marks base body
  have hbody : mark ++ after = mark ++ after.takeWhile (isDigitOf radix) ++ after.dropWhile (isDigitOf radix) := by
    rw [List.append_assoc, List.takeWhile_append_dropWhile]
  rw [hbody] at hstart hunsigned hmark
  refine ⟨⟨text.takeWhile isSpace, sign, mark, after.takeWhile (isDigitOf radix),
    after.dropWhile (isDigitOf radix), radix⟩, ?_, fun c hc => List.mem_takeWhile_imp hc, ?_, hsign,
    hunsigned, hmark, fun c hc => List.mem_takeWhile_imp hc, hends _ _⟩
  · exact (List.takeWhile_append_dropWhile).symm.trans (congrArg _ hstart)
  · exact hstart ▸ hends isSpace text

/-- The reader finds the sign and goes on behind it. -/
theorem ofText_signed {text : String} (hbase : ¬(base = 1 ∨ base > 36))
    (hstart : text.toList.dropWhile isSpace = sign ++ body)
    (hsign : sign = [] ∨ sign = ['+'] ∨ sign = ['-'])
    (hunsigned : sign = [] → Starts (fun c => c ≠ '+' ∧ c ≠ '-') body)
    (hradix : Integer.radix base body = (radix, digits ++ rest))
    (hdigits : ∀ c ∈ digits, isDigitOf radix c = true) (hrest : Starts (isDigitOf radix · = false) rest) :
    ofText base text = (digits.foldlM (appendDigit radix (sign == ['-'])) 0).getD 0 := by
  unfold ofText
  rw [if_neg (by simpa using hbase), hstart]
  rcases hsign with rfl | rfl | rfl
  · dsimp only [List.nil_append]
    split
    · exact absurd rfl (starts_cons.mp (hunsigned rfl)).2
    · exact absurd rfl (starts_cons.mp (hunsigned rfl)).1
    · simp only [hradix, takeWhile_run hdigits hrest]
      rfl
  · simp only [List.singleton_append, hradix, takeWhile_run hdigits hrest]
    rfl
  · simp only [List.singleton_append, hradix, takeWhile_run hdigits hrest]
    rfl

/-- The answer is the value of the parts that are read. -/
theorem ofText_of_reads {text : String} {parts : Parts} (hbase : ¬(base = 1 ∨ base > 36))
    (h : Reads base text.toList parts) : ofText base text
      = if parts.digits ≠ [] ∧ InWord parts.value then parts.value else 0 := by
  have hstart : text.toList.dropWhile isSpace = parts.sign ++ parts.body := by
    rw [h.whole]
    exact dropWhile_run h.blanks h.starts
  have hafter : parts.body.drop parts.mark.length = parts.digits ++ parts.rest := by
    unfold Parts.body
    rw [List.append_assoc, List.drop_left]
  have hradix := radix_of_marks h.mark
  rw [hafter] at hradix
  rw [ofText_signed hbase hstart h.sign h.unsigned hradix h.digits h.rest, foldlM_digits (radix_pos h.mark)]
  by_cases hdigits : parts.digits = []
  · have hzero : signed (parts.sign == ['-']) (magnitude parts.radix parts.digits) = 0 := by
      rw [hdigits]
      cases parts.sign == ['-'] <;> rfl
    rw [hzero, ite_self, if_neg fun hread => hread.1 hdigits]
  · simp only [ne_eq, hdigits, not_false_eq_true, true_and]
    rfl

/-! ## What is written is read back -/

/-- The digits of a number in a base, the last one being that of the ones.  Zero has a digit too. -/
def digitsOf (base n : Nat) : List Nat := if n = 0 then [0] else (Nat.digits base n).reverse

/-- **An integer is written** in a base: white space, the sign of a negative number, zeros and the digits, in
either case, and then a text that does not go on with the number.  A zero is not followed by an `x` either. -/
inductive Writes (base : Nat) (n : Int) : List Char → Prop where
  | intro (blanks : List Char) (zeros : Nat) (digits rest : List Char) (hblanks : ∀ c ∈ blanks, isSpace c = true)
    (hdigits : digits.map digitValue = digitsOf base n.natAbs)
    (hrest : Starts (fun c => isDigitOf base c = false ∧ c ≠ 'x' ∧ c ≠ 'X') rest) :
    Writes base n (blanks ++ ((if n < 0 then ['-'] else []) ++ (List.replicate zeros '0' ++ digits ++ rest)))

/-- A digit is neither white space nor a sign. -/
theorem isDigitOf_only (h : isDigitOf base c = true) : isSpace c = false ∧ c ≠ '+' ∧ c ≠ '-' := by
  have hvalue : digitValue c < 36 := by
    unfold isDigitOf at h
    simp only [Bool.and_eq_true, decide_eq_true_eq] at h
    exact h.2
  refine ⟨?_, ?_, ?_⟩
  · unfold isSpace Text.isBlank
    simp only [Bool.or_eq_false_iff, beq_eq_false_iff_ne]
    refine ⟨⟨⟨⟨?_, ?_⟩, ?_⟩, ?_⟩, ?_⟩ <;> rintro rfl <;> exact absurd hvalue (by decide)
  · rintro rfl
    exact absurd hvalue (by decide)
  · rintro rfl
    exact absurd hvalue (by decide)

variable {n : Int}

/-- What is written are digits of the base. -/
theorem written_digits (zeros : Nat) (hlow : 2 ≤ base) (hhigh : base ≤ 36)
    (hdigits : digits.map digitValue = digitsOf base n.natAbs) :
    ∀ c ∈ List.replicate zeros '0' ++ digits, isDigitOf base c = true := by
  intro c hc
  have hvalue : digitValue c < base := by
    rcases List.mem_append.mp hc with hzero | hdigit
    · obtain rfl := List.eq_of_mem_replicate hzero
      exact Nat.lt_of_lt_of_le (by decide) hlow
    · have hmem : digitValue c ∈ digitsOf base n.natAbs := hdigits ▸ List.mem_map_of_mem hdigit
      unfold digitsOf at hmem
      split at hmem
      · rw [List.mem_singleton.mp hmem]
        exact Nat.lt_of_lt_of_le (by decide) hlow
      · exact Nat.digits_lt_base hlow (List.mem_reverse.mp hmem)
  unfold isDigitOf
  rw [decide_eq_true hvalue, decide_eq_true (Nat.lt_of_lt_of_le hvalue hhigh)]
  rfl

/-- Zeros in front do not count. -/
theorem written_magnitude (zeros : Nat) (hdigits : digits.map digitValue = digitsOf base n.natAbs) :
    magnitude base (List.replicate zeros '0' ++ digits) = n.natAbs := by
  unfold magnitude
  rw [List.map_append, List.map_replicate, List.reverse_append, List.reverse_replicate, hdigits,
    show digitValue '0' = 0 by decide, Nat.ofDigits_append_replicate_zero]
  unfold digitsOf
  split
  · next hzero => rw [hzero, List.reverse_singleton, Nat.ofDigits_singleton]
  · rw [List.reverse_reverse, Nat.ofDigits_digits]

/-- What is written does not start with the mark of a hexadecimal number: there is no digit `x`. -/
theorem written_unmarked {run : List Char} (hrun : ∀ c ∈ run, isDigitOf 16 c = true) (hne : run ≠ [])
    (hrest : Starts (fun c => isDigitOf 16 c = false ∧ c ≠ 'x' ∧ c ≠ 'X') rest) : ¬HexMarked (run ++ rest) := by
  rintro ⟨x, d, more, hmarked, hx, -⟩
  obtain ⟨zero, run, rfl⟩ := List.exists_cons_of_ne_nil hne
  rw [List.cons_append] at hmarked
  have hmore := (List.cons.inj hmarked).2
  cases run with
  | nil =>
    rw [List.nil_append] at hmore
    rw [hmore] at hrest
    have hno := starts_cons.mp hrest
    rcases hx with rfl | rfl
    · exact hno.2.1 rfl
    · exact hno.2.2 rfl
  | cons second run =>
    obtain rfl := (List.cons.inj hmore).1
    have hdigit := hrun second (List.mem_cons_of_mem _ List.mem_cons_self)
    rcases hx with rfl | rfl
    · exact absurd hdigit (by decide)
    · exact absurd hdigit (by decide)

/-- What is written is read as it was meant. -/
theorem reads_written {text : List Char} (hlow : 2 ≤ base) (hhigh : base ≤ 36) (h : Writes base n text) :
    ∃ parts, Reads base text parts ∧ parts.digits ≠ [] ∧ parts.value = n := by
  obtain ⟨blanks, zeros, digits, rest, hblanks, hdigits, hrest⟩ := h
  have hrun := written_digits zeros hlow hhigh hdigits
  have hne : List.replicate zeros '0' ++ digits ≠ [] := by
    have hnone : digits ≠ [] := by
      rintro rfl
      unfold digitsOf at hdigits
      split at hdigits
      · cases hdigits
      · next hn => exact hn (Nat.digits_eq_nil_iff_eq_zero.mp (List.reverse_eq_nil_iff.mp hdigits.symm))
    exact fun hempty => hnone (List.append_eq_nil_iff.mp hempty).2
  have hmagnitude := written_magnitude zeros hdigits
  generalize List.replicate zeros '0' ++ digits = run at *
  have hbody : Starts (fun c => isSpace c = false ∧ c ≠ '+' ∧ c ≠ '-') (run ++ rest) := by
    obtain ⟨first, run, rfl⟩ := List.exists_cons_of_ne_nil hne
    exact starts_cons.mpr (isDigitOf_only (hrun first List.mem_cons_self))
  refine ⟨⟨blanks, if n < 0 then ['-'] else [], [], run, rest, base⟩, ⟨rfl, hblanks, ?_, ?_, ?_, ?_, hrun, ?_⟩, hne, ?_⟩
  · split
    · exact starts_cons.mpr (by decide)
    · exact hbody.mono fun c hc => hc.1
  · split
    · exact .inr (.inr rfl)
    · exact .inl rfl
  · exact fun _ => hbody.mono fun c hc => hc.2
  · refine .plain (by omega) ?_
    rintro ⟨rfl, hhex⟩
    exact written_unmarked hrun hne hrest hhex
  · exact hrest.mono fun c hc => hc.1
  · show signed ((if n < 0 then ['-'] else []) == ['-']) (magnitude base run) = n
    rw [hmagnitude]
    split
    · show -(n.natAbs : Int) = n
      omega
    · show (n.natAbs : Int) = n
      omega

/-- **The reader of integers is exact.**  In each base that there is, the answer is the value of the digits
that are read of the text, if there are any and the value can be held in a word, and otherwise zero; so an
integer that is written in the base is read back. -/
theorem ofText_exact (base : Nat) :
    (base = 1 ∨ base > 36 → ∀ text, ofText base text = 0) ∧
    (¬(base = 1 ∨ base > 36) → ∀ text : String, (∃ parts, Reads base text.toList parts) ∧
      ∀ parts, Reads base text.toList parts →
        ofText base text = if parts.digits ≠ [] ∧ InWord parts.value then parts.value else 0) ∧
    (2 ≤ base → base ≤ 36 → ∀ (n : Int) (text : String), InWord n → Writes base n text.toList →
      ofText base text = n) := by
  refine ⟨fun hbase text => ?_, fun hbase text => ⟨exists_reads base _, fun parts => ofText_of_reads hbase⟩, ?_⟩
  · exact if_pos (by simpa using hbase)
  · intro hlow hhigh n text hword hwrites
    obtain ⟨parts, hreads, hdigits, rfl⟩ := reads_written hlow hhigh hwrites
    rw [ofText_of_reads (by omega) hreads, if_pos ⟨hdigits, hword⟩]

/-- The least integer is read, but a mark without digits is a zero that ends there. -/
theorem ofText_exact_least : ofText 37 "1" = 0 ∧ ofText 0 "0x" = 0 ∧
    ofText 16 "\t-008000000000000000.8" = -9223372036854775808 := by
  have hmark : Reads 0 "0x".toList ⟨[], [], [], ['0'], ['x'], 8⟩ :=
    ⟨rfl, nofun, starts_cons.mpr (by decide), .inl rfl, fun _ => starts_cons.mpr (by decide),
      .octal rfl (mt hasHexMark_iff.mpr (by decide)) rfl, List.forall_mem_singleton.mpr rfl,
      starts_cons.mpr (by decide)⟩
  have hleast : Writes 16 (-9223372036854775808) "\t-008000000000000000.8".toList :=
    .intro ['\t'] 2 "8000000000000000".toList ['.', '8'] (List.forall_mem_singleton.mpr rfl)
      (by simp [digitsOf]; decide) (starts_cons.mpr (by decide))
  exact ⟨(ofText_exact 37).1 (by decide) _, (((ofText_exact 0).2.1 (by decide) _).2 _ hmark).trans (by decide),
    (ofText_exact 16).2.2 (by decide) (by decide) _ _ (by decide) hleast⟩

end LiveTemplate.Integer
