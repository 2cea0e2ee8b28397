import LiveTemplate.Expression.Template
import LiveTemplate.Measure.Reading
import LiveTemplate.Proofs.Number.Scientific
import LiveTemplate.Proofs.Syntax.Tokens
/-!
# The numbers of numerals

A numeral has digits in front of the point and digits behind it.  Two readers make a double of them.  That of
dimensions takes all digits together and rounds once.  That of expressions computes with doubles: it accumulates
the digits in front, accumulates those behind, divides these by a power of ten, and adds the two.

With few enough digits all of this is exact but for the quotient and the sum (`numeralValue_short`).  So the two
readers differ by what is lost by rounding twice, and by nothing if there is no integer in front or if the
fraction is a double.
-/

set_option autoImplicit false

namespace LiveTemplate.Number

variable {a b k m n : Nat} {x y : Float}

/-! ## Exact arithmetic -/

theorem isMultiple_nat (hn : n < 2 ^ 53) : IsMultiple n (lastPlace n) ∧ |(n : ℚ)| < 2 ^ (1023 : ℤ) := by
  have hmag : |(n : ℚ)| < 2 ^ (53 : ℤ) := by
    rw [abs_of_nonneg (Nat.cast_nonneg n)]
    exact_mod_cast hn
  exact ⟨isMultiple_intCast n (lastPlace_le_of_lt (by decide) hmag),
    lt_two_zpow hmag (by decide)⟩

theorem IsInteger.mul (hx : IsInteger m x) (hy : IsInteger n y)
    (h : IsMultiple (m * n : Nat) (lastPlace (m * n : Nat)) ∧ |((m * n : Nat) : ℚ)| < 2 ^ (1023 : ℤ)) :
    IsInteger (m * n) (x * y) := by
  have hrounds := mul_rounds hx.finite hy.finite
  rw [hx.value, hy.value, ← Nat.cast_mul] at hrounds
  obtain ⟨hfinite, hnearest⟩ := hrounds h.2
  exact ⟨hfinite, hnearest.eq_of_multiple h.1, signOf_mul hx.finite hy.finite hx.sign hy.sign⟩

theorem IsInteger.add (hx : IsInteger m x) (hy : IsInteger n y) (hlt : m + n < 2 ^ 53) :
    IsInteger (m + n) (x + y) := by
  obtain ⟨hmultiple, hsmall⟩ := isMultiple_nat hlt
  have hrounds := add_rounds hx.finite hy.finite
  rw [hx.value, hy.value, ← Nat.cast_add] at hrounds
  obtain ⟨hfinite, hnearest⟩ := hrounds hsmall
  exact ⟨hfinite, hnearest.eq_of_multiple hmultiple, signOf_add hx.finite hy.finite hx.sign hy.sign⟩

/-- A small integer is a double. -/
theorem isInteger_ofInt (hn : n < 2 ^ 53) : IsInteger n (ofInt n) := by
  obtain ⟨hmultiple, hsmall⟩ := isMultiple_nat hn
  have hnearest : IsNearestDouble n (ofInt n) := ofScientific_nearest_whole n
  obtain ⟨hfinite, hvalue⟩ := hnearest.finite (lt_overflowLimit ((le_abs_self _).trans_lt hsmall))
  exact ⟨hfinite, hvalue.eq_of_multiple hmultiple, hnearest.sign⟩

/-- Rounding does not cross a power of two. -/
theorem IsNearest.abs_le_pow {q z : ℚ} {b : ℤ} (h : IsNearest q z) (hq : 0 ≤ q) (hb : -52 ≤ b)
    (hle : q ≤ 2 ^ b) : |z| ≤ 2 ^ b := by
  have hmag : |q| < 2 ^ (b + 53) := by
    rw [abs_of_nonneg hq]
    exact lt_two_zpow_of_le hle (by omega)
  rw [abs_of_nonneg (h.nonneg hq)]
  exact h.ge_of_ge (IsMultiple.mono ⟨1, by rw [Int.cast_one, one_mul]⟩ (lastPlace_le_of_lt hb hmag)) hle

/-- The double times one is the double. -/
theorem one_mul_of_positive (hx : x.isFinite = true) (hsign : signOf x = .positive)
    (hsmall : |value x| < 2 ^ (1023 : ℤ)) : 1.0 * x = x := by
  obtain ⟨hone, hvalue, hsign'⟩ : IsInteger 1 1.0 := isInteger_sound (by decide)
  have hrounds := mul_rounds hone hx
  rw [hvalue, Nat.cast_one, one_mul] at hrounds
  obtain ⟨hfinite, hnearest⟩ := hrounds hsmall
  exact eq_of_value hfinite hx (hnearest.eq_of_multiple (isMultiple_value hx))
    ((signOf_mul hone hx hsign' hsign).trans hsign.symm)

/-- The powers of ten that are doubles. -/
theorem isMultiple_ten (hk : k ≤ 22) : IsMultiple (10 ^ k : Nat) (lastPlace (10 ^ k : Nat)) ∧
    |((10 ^ k : Nat) : ℚ)| < 2 ^ (1023 : ℤ) := by
  have hsplit : ((10 ^ k : Nat) : ℚ) = (5 ^ k : Nat) * 2 ^ (k : ℤ) := by
    rw [zpow_natCast, show 10 ^ k = 5 ^ k * 2 ^ k from Nat.mul_pow 5 2 k]
    push_cast
    rfl
  have hfive : ((5 ^ k : Nat) : ℚ) < 2 ^ (53 : ℤ) := by
    have hlt : 5 ^ k < 2 ^ 53 := (Nat.pow_le_pow_right (by decide) hk).trans_lt (by norm_num)
    exact_mod_cast hlt
  have hmag : |((10 ^ k : Nat) : ℚ)| < 2 ^ ((k : ℤ) + 53) := by
    rw [abs_of_nonneg (Nat.cast_nonneg _), hsplit, add_comm, two_zpow_add]
    exact mul_lt_mul_of_pos_right hfive (two_zpow_pos _)
  refine ⟨IsMultiple.mono ⟨(5 ^ k : Nat), ?_⟩ (lastPlace_le_of_lt (by omega) hmag), ?_⟩
  · rw [hsplit]
    norm_cast
  · exact lt_two_zpow hmag (by omega)

/-- Squares and products of powers of ten are exact as long as the whole power is. -/
theorem isInteger_go (n : Nat) : ∀ a b (square result : Float), IsInteger (10 ^ a) square →
    IsInteger (10 ^ b) result → a * n + b ≤ 22 → IsInteger (10 ^ (a * n + b)) (power.go n square result) := by
  induction n using Nat.strongRecOn with
  | ind n ih =>
    intro a b square result hsquare hresult hle
    have hstep : ∃ b', b' = a * (n % 2) + b ∧
        IsInteger (10 ^ b') (if n % 2 == 1 then result * square else result) := by
      refine ⟨_, rfl, ?_⟩
      rcases Nat.mod_two_eq_zero_or_one n with heven | hodd
      · rw [heven, Nat.mul_zero, Nat.zero_add]
        exact hresult
      · have hhalf : 1 ≤ n := by omega
        have hpower : 10 ^ b * 10 ^ a = 10 ^ (a * 1 + b) := by rw [← Nat.pow_add, Nat.mul_one, Nat.add_comm]
        have hsum : a * 1 + b ≤ 22 := le_trans (Nat.add_le_add_right (Nat.mul_le_mul_left a hhalf) b) hle
        have hproduct := hresult.mul hsquare (hpower ▸ isMultiple_ten hsum)
        rw [hodd]
        exact hpower ▸ hproduct
    obtain ⟨b', hb', hresult'⟩ := hstep
    have hsplit : a * n + b = 2 * a * (n / 2) + b' := by
      have hn := Nat.div_add_mod n 2
      rw [hb']
      calc a * n + b = a * (2 * (n / 2) + n % 2) + b := by rw [hn]
        _ = 2 * a * (n / 2) + (a * (n % 2) + b) := by ring
    rw [power.go]
    rw [hsplit] at hle ⊢
    split
    · next hzero =>
      rw [hzero, Nat.mul_zero, Nat.zero_add]
      exact hresult'
    · next hmore =>
      have hpower : 10 ^ a * 10 ^ a = 10 ^ (2 * a) := by rw [← Nat.pow_add, Nat.two_mul]
      have hsmall : 2 * a ≤ 22 :=
        le_trans (Nat.le_mul_of_pos_right _ (Nat.pos_of_ne_zero hmore)) (le_trans (Nat.le_add_right _ _) hle)
      have hproduct := hsquare.mul hsquare (hpower ▸ isMultiple_ten hsmall)
      exact ih (n / 2) (by omega) (2 * a) b' _ _ (hpower ▸ hproduct) hresult' hle

/-- A power of ten by repeated squaring is exact up to the twenty-second. -/
theorem isInteger_power_ten (hk : k ≤ 22) : IsInteger (10 ^ k) (power (ofInt 10) k) := by
  have hgo := isInteger_go k 1 0 (ofInt 10) 1.0 (isInteger_ofInt (by decide)) (isInteger_sound (by decide)) (by omega)
  rwa [Nat.one_mul, Nat.add_zero] at hgo

end LiveTemplate.Number

namespace LiveTemplate.Numeral

open Text (isDigitOf digitValue isSpace stripWord?)
open Grammar (isDecimalDigit Starts char_of_codes starts_cons takeWhile_run dropWhile_run)
open Number

variable {c : Char} {numeral front behind digits : List Char}

/-! ## Digits -/

/-- The digits before the point. -/
def whole (numeral : List Char) : List Char := numeral.takeWhile isDecimalDigit

/-- The digits after the point. -/
def places (numeral : List Char) : List Char := (numeral.dropWhile isDecimalDigit).drop 1

/-- The number that a numeral stands for. -/
def exact (numeral : List Char) : ℚ :=
  (ofDigits (whole numeral ++ places numeral) : ℚ) / (10 ^ (places numeral).length : Nat)

theorem digit_cases (h : isDecimalDigit c = true) : c ∈ ['0', '1', '2', '3', '4', '5', '6', '7', '8', '9'] := by
  have hle : c.toNat ≤ 57 := of_decide_eq_true (Bool.and_eq_true_iff.mp h).2
  exact char_of_codes
    (p := fun c => isDecimalDigit c = true → c ∈ ['0', '1', '2', '3', '4', '5', '6', '7', '8', '9'])
    (by decide +kernel) (Nat.lt_succ_of_le hle) h

/-- A decimal digit has the same value in every base. -/
theorem digitValue_eq (h : isDecimalDigit c = true) : digitValue c = c.toNat - '0'.toNat ∧ digitValue c < 10 := by
  obtain ⟨hlow, hhigh⟩ := Bool.and_eq_true_iff.mp h
  have hvalue : digitValue c = c.toNat - '0'.toNat := if_pos ⟨of_decide_eq_true hlow, of_decide_eq_true hhigh⟩
  have hle : c.toNat ≤ 57 := of_decide_eq_true hhigh
  exact ⟨hvalue, hvalue ▸ show c.toNat - 48 < 10 by omega⟩

theorem ofDigits_concat (digits : List Char) (c : Char) :
    ofDigits (digits ++ [c]) = ofDigits digits * 10 + (c.toNat - '0'.toNat) := List.foldl_append

theorem ofDigits_append (front behind : List Char) :
    ofDigits (front ++ behind) = ofDigits front * 10 ^ behind.length + ofDigits behind := by
  induction behind using List.reverseRecOn with
  | nil => simp [ofDigits]
  | append_singleton behind c ih =>
    rw [← List.append_assoc, ofDigits_concat, ofDigits_concat, ih, List.length_append, List.length_singleton,
      pow_succ]
    ring

/-- The integer and the fraction make up the number. -/
theorem exact_eq (numeral : List Char) : exact numeral = ofDigits (whole numeral)
    + (ofDigits (places numeral) : ℚ) / (10 ^ (places numeral).length : Nat) := by
  have hten : ((10 ^ (places numeral).length : Nat) : ℚ) ≠ 0 := Nat.cast_ne_zero.mpr (Nat.pow_pos (by decide)).ne'
  unfold exact
  rw [ofDigits_append, Nat.cast_add, Nat.cast_mul, add_div, mul_div_cancel_right₀ _ hten]

/-- Digits are accumulated exactly as long as their number is small. -/
theorem accumulate_isInteger (hdigits : IsDigits digits) (hlt : ofDigits digits < 2 ^ 53) :
    IsInteger (ofDigits digits) (accumulate 10 digits) := by
  induction digits using List.reverseRecOn with
  | nil => exact ⟨rfl, (value_zero (s := .positive) rfl).trans Nat.cast_zero.symm, rfl⟩
  | append_singleton digits c ih =>
    obtain ⟨hinit, hlast⟩ := List.forall_mem_append.mp hdigits
    obtain ⟨hvalue, hdigit⟩ := digitValue_eq (hlast c (List.mem_singleton_self c))
    rw [ofDigits_concat, ← hvalue] at hlt ⊢
    have hstep : accumulate 10 (digits ++ [c]) = accumulate 10 digits * ofInt 10 + ofInt (digitValue c) := by
      unfold accumulate
      rw [List.foldl_append]
      rfl
    rw [hstep]
    exact ((ih hinit (by omega)).mul (isInteger_ofInt (by decide)) (isMultiple_nat (by omega))).add
      (isInteger_ofInt (by omega)) hlt

/-! ## The parts of a numeral -/

/-- The digits before the point and those after it, and whether there is one. -/
inductive Parts : List Char → List Char → List Char → Prop
  | integer (front : List Char) : IsDigits front → front ≠ [] → Parts front front []
  | point (front behind : List Char) : IsDigits front → IsDigits behind → front ≠ [] ∨ behind ≠ [] →
    Parts (front ++ '.' :: behind) front behind

theorem isDigits_of_whole (h : IsWhole digits) : IsDigits digits ∧ digits ≠ [] := by
  rcases h with rfl | ⟨c, rest, rfl, -, hdigits⟩
  · exact ⟨by simp [IsDigits, isDecimalDigit], by simp⟩
  · exact ⟨hdigits, by simp⟩

theorem exists_parts (h : IsNumeral numeral) : ∃ front behind, Parts numeral front behind := by
  rcases h with hwhole | ⟨front, behind, hwhole, hbehind, rfl⟩ | ⟨c, rest, hbehind, rfl⟩
  · obtain ⟨hdigits, hne⟩ := isDigits_of_whole hwhole
    exact ⟨_, _, .integer numeral hdigits hne⟩
  · obtain ⟨hdigits, hne⟩ := isDigits_of_whole hwhole
    exact ⟨_, _, .point front behind hdigits hbehind (.inl hne)⟩
  · exact ⟨_, _, .point [] (c :: rest) (by simp [IsDigits]) hbehind (.inr (by simp))⟩

theorem Parts.all (h : Parts numeral front behind) : IsDigits front ∧ IsDigits behind := by
  cases h with
  | integer _ hfront => exact ⟨hfront, by simp [IsDigits]⟩
  | point _ _ hfront hbehind => exact ⟨hfront, hbehind⟩

/-- A class of characters that has the digits and not the point finds the parts. -/
theorem Parts.found {p : Char → Bool} (hp : ∀ c, isDecimalDigit c = true → p c = true) (hpoint : p '.' = false)
    {rest : List Char} (hrest : Starts (fun c => p c = false ∧ c ≠ '.') rest) (h : Parts numeral front behind) :
    (numeral ++ rest).takeWhile p = front ∧
      ((numeral ++ rest).dropWhile p = rest ∧ front ≠ [] ∧ behind = [] ∨
        (numeral ++ rest).dropWhile p = '.' :: (behind ++ rest) ∧
          (behind ++ rest).takeWhile p = behind ∧ (behind ++ rest).dropWhile p = rest) := by
  have hends : Starts (p · = false) rest := hrest.mono fun c hc => hc.1
  cases h with
  | integer _ hfront hne =>
    have hrun (c : Char) (hc : c ∈ numeral) := hp c (hfront c hc)
    exact ⟨takeWhile_run hrun hends, .inl ⟨dropWhile_run hrun hends, hne, rfl⟩⟩
  | point _ _ hfront hbehind =>
    have hrun (c : Char) (hc : c ∈ front) := hp c (hfront c hc)
    have hrun' (c : Char) (hc : c ∈ behind) := hp c (hbehind c hc)
    have hmark : Starts (p · = false) ('.' :: (behind ++ rest)) := starts_cons.mpr hpoint
    rw [List.append_assoc, List.cons_append]
    exact ⟨takeWhile_run hrun hmark, .inr ⟨dropWhile_run hrun hmark, takeWhile_run hrun' hends,
      dropWhile_run hrun' hends⟩⟩

theorem Parts.eq (h : Parts numeral front behind) : whole numeral = front ∧ places numeral = behind := by
  have hend : Starts (fun c => isDecimalDigit c = false ∧ c ≠ '.') [] := nofun
  obtain ⟨hfront, hrest⟩ := h.found (fun _ => id) (by decide) hend
  rw [List.append_nil] at hfront hrest
  refine ⟨hfront, ?_⟩
  unfold places
  rcases hrest with ⟨hnone, -, rfl⟩ | ⟨hpoint, -⟩
  · rw [hnone]
    rfl
  · rw [hpoint, List.append_nil]
    rfl

/-! ## The reader of expressions -/

/-- What is added up of the digits before the point and those after it. -/
def total (front behind : List Char) : Float :=
  if behind.isEmpty then accumulate 10 front else accumulate 10 front + fraction 10 behind

theorem isDigitOf_ten (h : isDecimalDigit c = true) : isDigitOf 10 c = true := by
  have hlt := (digitValue_eq h).2
  unfold isDigitOf
  rw [decide_eq_true hlt, decide_eq_true (hlt.trans (by decide))]
  rfl

theorem significand_parts (h : Parts numeral front behind) :
    significand? 10 numeral = some (total front behind, []) := by
  have hend : Starts (fun c => isDigitOf 10 c = false ∧ c ≠ '.') [] := nofun
  obtain ⟨hfront, hrest⟩ := h.found (fun _ => isDigitOf_ten) (by decide) hend
  rw [List.append_nil] at hfront hrest
  unfold significand? total
  rw [hfront]
  rcases hrest with ⟨hnone, hne, rfl⟩ | ⟨hpoint, hplaces, hend⟩
  · rw [hnone]
    exact if_neg (by simpa using hne)
  · simp only [hpoint, hplaces, hend]

/-- No character of a numeral is anything else that a number may start or go on with. -/
theorem numeral_char (h : isDecimalDigit c = true ∨ c = '.') :
    isSpace c = false ∧ c ≠ '+' ∧ c ≠ '-' ∧ c.toLower ≠ 'i' ∧ c.toLower ≠ 'n' ∧ c.toLower ≠ 'x' := by
  rcases h with hdigit | rfl
  · have hcases := digit_cases hdigit
    simp only [List.mem_cons, List.not_mem_nil, or_false] at hcases
    rcases hcases with rfl | rfl | rfl | rfl | rfl | rfl | rfl | rfl | rfl | rfl <;> decide
  · decide

theorem Parts.chars (h : Parts numeral front behind) : ∀ c ∈ numeral, isDecimalDigit c = true ∨ c = '.' := by
  intro c hc
  cases h with
  | integer _ hfront => exact .inl (hfront c hc)
  | point _ _ hfront hbehind =>
    rcases List.mem_append.mp hc with hc | hc
    · exact .inl (hfront c hc)
    · exact (List.mem_cons.mp hc).symm.imp_left (hbehind c)

theorem Parts.ne_nil (h : Parts numeral front behind) : numeral ≠ [] := by
  cases h with
  | integer _ _ hne => exact hne
  | point => simp

theorem Parts.nonempty (h : Parts numeral front behind) : front = [] → behind ≠ [] := by
  cases h with
  | integer _ _ hne => exact fun hempty => absurd hempty hne
  | point _ _ _ _ hne => exact hne.resolve_left ∘ not_not_intro

/-- A word is not found where its first letter is not. -/
theorem stripWord?_none {w : Char} (word rest : List Char) (h : c.toLower ≠ w) :
    stripWord? (w :: word) (c :: rest) = none := if_neg (by simpa using h)

/-- No mark of a hexadecimal number stands in a numeral. -/
theorem not_hexadecimal (h : ∀ c ∈ numeral, isDecimalDigit c = true ∨ c = '.') :
    stripWord? ['0', 'x'] numeral = none := by
  cases numeral with
  | nil => rfl
  | cons c rest =>
    rw [stripWord?]
    split
    · cases rest with
      | nil => rfl
      | cons d rest => exact stripWord?_none _ _ (numeral_char (h d (by simp))).2.2.2.2.2
    · rfl

theorem sign_unsigned {rest : List Char} (hplus : c ≠ '+') (hminus : c ≠ '-') :
    sign (c :: rest) = (1.0, c :: rest) := by
  unfold sign
  split
  · next heq => exact absurd (List.cons.inj heq).1 hplus
  · next heq => exact absurd (List.cons.inj heq).1 hminus
  · rfl

theorem leading_parts (h : Parts numeral front behind) : leading numeral = (1.0 * total front behind, []) := by
  have hchars := h.chars
  have hsignificand := significand_parts h
  have hhexadecimal := not_hexadecimal hchars
  obtain ⟨c, rest, rfl⟩ := List.exists_cons_of_ne_nil h.ne_nil
  obtain ⟨hspace, hplus, hminus, hi, hn, -⟩ := numeral_char (hchars c List.mem_cons_self)
  have hstart : (c :: rest).dropWhile isSpace = c :: rest := List.dropWhile_cons_of_neg (by simp [hspace])
  unfold leading
  rw [hstart]
  simp only [sign_unsigned hplus hminus, stripWord?_none _ _ hi, stripWord?_none _ _ hn, hhexadecimal, inBase,
    hsignificand]
  rfl

theorem numeralValue_eq (h : Parts numeral front behind) :
    Template.numeralValue numeral = 1.0 * total front behind := by
  unfold Template.numeralValue value
  rw [String.toList_ofList, leading_parts h]
  rfl

/-! ## Short numerals -/

/-- The fraction that the digits after the point stand for. -/
def fractionOf (numeral : List Char) : ℚ := (ofDigits (places numeral) : ℚ) / (10 ^ (places numeral).length : Nat)

/-- A numeral with few digits: accumulating them and the power of ten are exact. -/
structure IsShort (numeral : List Char) : Prop where
  whole : ofDigits (whole numeral) < 2 ^ 53
  places : ofDigits (places numeral) < 2 ^ 53
  length : (Numeral.places numeral).length ≤ 22

theorem fractionOf_nonneg (numeral : List Char) : 0 ≤ fractionOf numeral :=
  div_nonneg (Nat.cast_nonneg _) (Nat.cast_nonneg _)

theorem fractionOf_lt (h : IsShort numeral) : fractionOf numeral < 2 ^ (53 : ℤ) := by
  refine (div_le_self (Nat.cast_nonneg _) ?_).trans_lt (by exact_mod_cast h.places)
  exact_mod_cast Nat.pow_pos (by decide)

/-- The fraction is rounded once. -/
theorem fraction_rounds (h : Parts numeral front behind) (hshort : IsShort numeral) (hne : behind ≠ []) :
    Rounds (fractionOf numeral) (fraction 10 behind) ∧ signOf (fraction 10 behind) = .positive := by
  obtain ⟨-, rfl⟩ := h.eq
  have hnum := accumulate_isInteger h.all.2 hshort.places
  have hden := isInteger_power_ten hshort.length
  have hpos : Number.value (power (ofInt 10) (places numeral).length) ≠ 0 := by
    rw [hden.value]
    exact Nat.cast_ne_zero.mpr (Nat.pow_pos (by decide)).ne'
  have hrounds := div_rounds hnum.finite hden.finite hpos
  rw [hnum.value, hden.value] at hrounds
  have hsmall : |fractionOf numeral| < 2 ^ (1023 : ℤ) := by
    rw [abs_of_nonneg (fractionOf_nonneg _)]
    exact lt_two_zpow (fractionOf_lt hshort) (by decide)
  unfold fraction
  rw [if_neg (by simpa using hne)]
  exact ⟨hrounds hsmall, signOf_div hnum.finite hden.finite hnum.sign hden.sign hpos⟩

/-- What is added up is the integer and a double nearest to the fraction, which is zero if there are no places. -/
theorem total_rounds (h : Parts numeral front behind) (hshort : IsShort numeral) :
    ∃ z : Float, Rounds (fractionOf numeral) z ∧ signOf (total front behind) = .positive ∧
      (|ofDigits (whole numeral) + Number.value z| < 2 ^ (1023 : ℤ) →
        Rounds (ofDigits (whole numeral) + Number.value z) (total front behind)) := by
  have hfront : IsInteger (ofDigits (whole numeral)) (accumulate 10 front) := by
    rw [h.eq.1]
    exact accumulate_isInteger h.all.1 (h.eq.1 ▸ hshort.whole)
  unfold total
  rw [← hfront.value]
  by_cases hne : behind = []
  · have hnone : fractionOf numeral = 0 := by
      rw [fractionOf, h.eq.2, hne]
      exact zero_div _
    have hzero : Number.value 0.0 = 0 := value_zero (s := .positive) rfl
    refine ⟨0.0, ?_, ?_⟩
    · rw [hnone]
      exact rounds_zero isNearest_zero .positive
    · rw [if_pos (by simpa using hne), hzero, add_zero]
      exact ⟨hfront.sign, fun _ => ⟨hfront.finite, isNearest_self (isMultiple_value hfront.finite)⟩⟩
  · obtain ⟨hz, hsign⟩ := fraction_rounds h hshort hne
    refine ⟨_, hz, ?_⟩
    rw [if_neg (by simpa using hne)]
    exact ⟨signOf_add hfront.finite hz.1 hfront.sign hsign, add_rounds hfront.finite hz.1⟩

/-- Rounding keeps the fraction small. -/
theorem fraction_bounds {z : ℚ} (hshort : IsShort numeral) (hz : IsNearest (fractionOf numeral) z) :
    0 ≤ z ∧ z ≤ 2 ^ (53 : ℤ) := by
  have hnonneg := fractionOf_nonneg numeral
  have hle := hz.abs_le_pow hnonneg (by decide) (fractionOf_lt hshort).le
  rw [abs_of_nonneg (hz.nonneg hnonneg)] at hle
  exact ⟨hz.nonneg hnonneg, hle⟩

/-- **What expressions read of a short numeral**: the integer and the double nearest to the fraction, added and
rounded once more. -/
theorem numeralValue_short (h : IsNumeral numeral) (hshort : IsShort numeral) :
    ∃ z : Float, Rounds (fractionOf numeral) z ∧
      IsNearestDouble (ofDigits (whole numeral) + Number.value z) (Template.numeralValue numeral) := by
  obtain ⟨front, behind, hparts⟩ := exists_parts h
  obtain ⟨z, hz, hsign, htotal⟩ := total_rounds hparts hshort
  obtain ⟨hnonneg, hfraction⟩ := fraction_bounds hshort hz.2
  have hwhole : ((ofDigits (whole numeral) : Nat) : ℚ) ≤ 2 ^ (53 : ℤ) := by exact_mod_cast hshort.whole.le
  have hsum : 0 ≤ ofDigits (whole numeral) + Number.value z := add_nonneg (Nat.cast_nonneg _) hnonneg
  have hle : ofDigits (whole numeral) + Number.value z ≤ 2 ^ (54 : ℤ) :=
    (add_le_add hwhole hfraction).trans_eq (by norm_num)
  have hrounds := htotal (lt_two_zpow_of_le ((abs_of_nonneg hsum).trans_le hle) (by decide))
  have hsmall := lt_two_zpow_of_le (hrounds.2.abs_le_pow hsum (by decide) hle) (by decide : (54 : ℤ) < 1023)
  refine ⟨z, hz, ?_⟩
  rw [numeralValue_eq hparts, one_mul_of_positive hrounds.1 hsign hsmall]
  exact hrounds.isNearestDouble (lt_limit_of_lt (b := 55) (by decide) (lt_two_zpow_of_le hle (by decide))) hsign

/-- It is the nearest double if there is no integer, or if the fraction is a double. -/
theorem numeralValue_nearest (h : IsNumeral numeral) (hshort : IsShort numeral)
    (hexact : ofDigits (whole numeral) = 0 ∨ IsMultiple (fractionOf numeral) (lastPlace (fractionOf numeral))) :
    IsNearestDouble (exact numeral) (Template.numeralValue numeral) := by
  obtain ⟨z, hz, hnearest⟩ := numeralValue_short h hshort
  have hexact_eq : exact numeral = ofDigits (whole numeral) + fractionOf numeral := exact_eq numeral
  rw [hexact_eq]
  rcases hexact with hzero | hdouble
  · rw [hzero, Nat.cast_zero, zero_add] at hnearest ⊢
    -- the nearest double of a double is the double
    have hlt : fractionOf numeral < overflowLimit := lt_limit_of_lt (by decide) (fractionOf_lt hshort)
    have hsmall : Number.value z < overflowLimit :=
      lt_limit_of_lt (b := 54) (by decide) (lt_two_zpow_of_le (fraction_bounds hshort hz.2).2 (by decide))
    obtain ⟨hfinite, hsame⟩ := hnearest.finite hsmall
    have hvalue := hsame.eq_of_multiple (isMultiple_value hz.1)
    exact Rounds.isNearestDouble ⟨hfinite, hvalue ▸ hz.2⟩ hlt hnearest.sign
  · rwa [hz.2.eq_of_multiple hdouble] at hnearest

end LiveTemplate.Numeral
