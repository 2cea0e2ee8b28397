import Mathlib
/-!
# The nearest double

A number between two doubles is rounded to the one that is nearer, and from the middle to the one with
the even significand.  The doubles around a number are the multiples of a power of two, the unit in the
last of fifty-three binary places, or the least one that doubles have; so the double nearest to a number is
its nearest integer, once the number is measured in that unit.

Nothing is said of a greatest double.  Where doubles come in, in the modules that use this one, the numbers
are small enough.
-/

set_option autoImplicit false

namespace LiveTemplate.Number

/-! ## The nearest integer -/

/-- The integer is the nearest one to the number, and from the middle the even one. -/
def IsRounded (q : ℚ) (n : ℤ) : Prop := |q - n| ≤ 1 / 2 ∧ (|q - n| = 1 / 2 → Even n)

section Integers

variable {q : ℚ} {m n : ℤ}

theorem isRounded_intCast (n : ℤ) : IsRounded n n := by
  constructor <;> norm_num

theorem IsRounded.neg (h : IsRounded q n) : IsRounded (-q) (-n) := by
  have heq : |-q - ((-n : ℤ) : ℚ)| = |q - n| := by
    rw [Int.cast_neg, ← abs_neg]
    congr 1
    ring
  rw [IsRounded, heq]
  exact ⟨h.1, fun hhalf => (h.2 hhalf).neg⟩

/-- Rounding does not cross an integer. -/
theorem IsRounded.le_of_le (h : IsRounded q n) (hle : (m : ℚ) ≤ q) : m ≤ n := by
  have hclose := (abs_le.mp h.1).2
  have hlt : (m : ℚ) < n + 1 := by linarith
  exact Int.lt_add_one_iff.mp (by exact_mod_cast hlt)

theorem IsRounded.ge_of_ge (h : IsRounded q n) (hge : q ≤ m) : n ≤ m := by
  have hclose := (abs_le.mp h.1).1
  have hlt : (n : ℚ) < m + 1 := by linarith
  exact Int.lt_add_one_iff.mp (by exact_mod_cast hlt)

/-- Two integers are no further apart than a number is from both of them. -/
theorem distance_le (q : ℚ) (m n : ℤ) : |(m : ℚ) - n| ≤ |q - m| + |q - n| := by
  have htriangle := abs_sub_le (m : ℚ) q n
  rwa [abs_sub_comm (m : ℚ) q] at htriangle

theorem one_le_distance (hne : m ≠ n) : (1 : ℚ) ≤ |(m : ℚ) - n| := by
  have hint : (1 : ℤ) ≤ |m - n| := Int.one_le_abs (sub_ne_zero.mpr hne)
  exact_mod_cast hint

/-- An even integer takes in the whole of the half on either side of it. -/
theorem IsRounded.eq_of_even (h : IsRounded q n) (hm : Even m) (hclose : |q - m| ≤ 1 / 2) : n = m := by
  by_contra hne
  have hapart := one_le_distance (Ne.symm hne)
  have hsum := distance_le q m n
  have hn : Even n := h.2 (by linarith [h.1])
  -- two even integers are further apart
  obtain ⟨a, rfl⟩ := hm
  obtain ⟨b, rfl⟩ := hn
  have hfar : (2 : ℤ) ≤ |a + a - (b + b)| := by
    rcases abs_cases (a + a - (b + b)) with ⟨heq, hsign⟩ | ⟨heq, hsign⟩ <;> omega
  have hfar' : (2 : ℚ) ≤ |((a + a : ℤ) : ℚ) - ((b + b : ℤ) : ℚ)| := by exact_mod_cast hfar
  linarith [h.1]

/-- An even integer takes in the half below it, and no more. -/
theorem IsRounded.ge_of_even (h : IsRounded q n) (hm : Even m) (hge : m - 1 / 2 ≤ q) : m ≤ n := by
  rcases le_total (m : ℚ) q with hle | hle
  · exact h.le_of_le hle
  · exact (h.eq_of_even hm (abs_le.mpr ⟨by linarith, by linarith⟩)).ge

theorem IsRounded.lt_of_lt (h : IsRounded q n) (hlt : q < m - 1 / 2) : n < m := by
  have hclose := (abs_le.mp h.1).1
  have hn : (n : ℚ) < m := by linarith
  exact_mod_cast hn

/-- A number is rounded to one integer. -/
theorem IsRounded.unique (h : IsRounded q n) (h' : IsRounded q m) : n = m := by
  by_contra hne
  have hapart := one_le_distance (Ne.symm hne)
  have hsum := distance_le q m n
  have hhalf : |q - m| = 1 / 2 := le_antisymm h'.1 (by linarith [h.1])
  -- from the middle the even one is taken
  exact hne (h.eq_of_even (h'.2 hhalf) h'.1)

end Integers

/-! ## The unit in the last place -/

/-- The exponent of the last binary place of the doubles around a number. -/
def lastPlace (q : ℚ) : ℤ := max (Int.log 2 |q| - 52) (-1074)

/-- The number is a multiple of a power of two. -/
def IsMultiple (q : ℚ) (e : ℤ) : Prop := ∃ n : ℤ, q = n * 2 ^ e

variable {q r z : ℚ} {e f : ℤ}

theorem two_zpow_pos (e : ℤ) : (0 : ℚ) < 2 ^ e := zpow_pos two_pos e

theorem two_zpow_add (e f : ℤ) : (2 : ℚ) ^ (e + f) = 2 ^ e * 2 ^ f := zpow_add₀ two_ne_zero e f

theorem lt_two_zpow (h : q < 2 ^ e) (hle : e ≤ f) : q < 2 ^ f := h.trans_le (zpow_le_zpow_right₀ one_le_two hle)

theorem lt_two_zpow_of_le (h : q ≤ 2 ^ e) (hlt : e < f) : q < 2 ^ f :=
  h.trans_lt (zpow_lt_zpow_right₀ one_lt_two hlt)

theorem IsMultiple.mono (h : IsMultiple q f) (hle : e ≤ f) : IsMultiple q e := by
  obtain ⟨n, rfl⟩ := h
  obtain ⟨k, rfl⟩ := Int.le.dest hle
  refine ⟨n * 2 ^ k, ?_⟩
  rw [two_zpow_add, zpow_natCast]
  push_cast
  ring

theorem isMultiple_zero (e : ℤ) : IsMultiple 0 e := ⟨0, by rw [Int.cast_zero, zero_mul]⟩

theorem isMultiple_intCast (n : ℤ) (hle : e ≤ 0) : IsMultiple n e :=
  IsMultiple.mono ⟨n, by rw [zpow_zero, mul_one]⟩ hle

theorem IsMultiple.neg (h : IsMultiple q e) : IsMultiple (-q) e := by
  obtain ⟨n, rfl⟩ := h
  exact ⟨-n, by push_cast; ring⟩

theorem IsMultiple.sub (hq : IsMultiple q e) (hr : IsMultiple r e) : IsMultiple (q - r) e := by
  obtain ⟨m, rfl⟩ := hq
  obtain ⟨n, rfl⟩ := hr
  exact ⟨m - n, by push_cast; ring⟩

/-- Different multiples are a unit apart. -/
theorem IsMultiple.le_of_pos (h : IsMultiple q e) (hpos : 0 < q) : 2 ^ e ≤ q := by
  obtain ⟨n, rfl⟩ := h
  have hn : (0 : ℚ) < n := pos_of_mul_pos_left hpos (two_zpow_pos e).le
  have hone : (1 : ℚ) ≤ n := by exact_mod_cast (Int.add_one_le_iff.mpr (by exact_mod_cast hn) : 0 + 1 ≤ n)
  exact le_mul_of_one_le_left (two_zpow_pos e).le hone

theorem least_le_lastPlace (q : ℚ) : -1074 ≤ lastPlace q := le_max_right _ _

theorem lastPlace_neg (q : ℚ) : lastPlace (-q) = lastPlace q := by rw [lastPlace, lastPlace, abs_neg]

/-- A number has no more than fifty-three places before the end of its last one. -/
theorem abs_lt_lastPlace (q : ℚ) : |q| < 2 ^ (lastPlace q + 53) := by
  have hlog : |q| < 2 ^ (Int.log 2 |q| + 1) := Int.lt_zpow_succ_log_self (by norm_num) _
  refine lt_two_zpow hlog ?_
  have hle : Int.log 2 |q| - 52 ≤ lastPlace q := le_max_left _ _
  omega

theorem lastPlace_le (hq : q ≠ 0) (hleast : -1074 ≤ e) (hlt : |q| < 2 ^ (e + 53)) : lastPlace q ≤ e := by
  have hlog : Int.log 2 |q| < e + 53 :=
    (Int.lt_zpow_iff_log_lt (by norm_num) (abs_pos.mpr hq)).mp (by exact_mod_cast hlt)
  exact max_le (by omega) hleast

/-- Of zero no more is asked. -/
theorem lastPlace_le_of_lt (hleast : -52 ≤ e) (hlt : |q| < 2 ^ (e + 53)) : lastPlace q ≤ e := by
  rcases eq_or_ne q 0 with rfl | hq
  · rw [lastPlace, abs_zero, Int.log_zero_right]
    omega
  · exact lastPlace_le hq (by omega) hlt

theorem le_lastPlace (hle : 2 ^ (e + 52) ≤ |q|) : e ≤ lastPlace q := by
  have hpos : 0 < |q| := (two_zpow_pos _).trans_le hle
  have hlog : e + 52 ≤ Int.log 2 |q| := (Int.zpow_le_iff_le_log (by norm_num) hpos).mp (by exact_mod_cast hle)
  exact le_max_of_le_left (by omega)

theorem lastPlace_eq (hleast : -1074 ≤ e) (hle : 2 ^ (e + 52) ≤ |q|) (hlt : |q| < 2 ^ (e + 53)) :
    lastPlace q = e :=
  le_antisymm (lastPlace_le (abs_pos.mp ((two_zpow_pos _).trans_le hle)) hleast hlt) (le_lastPlace hle)

/-! ## The nearest double -/

/-- The second number is the one among the doubles that the first is rounded to. -/
def IsNearest (q z : ℚ) : Prop := ∃ n : ℤ, z = n * 2 ^ lastPlace q ∧ IsRounded (q / 2 ^ lastPlace q) n

theorem IsNearest.neg (h : IsNearest q z) : IsNearest (-q) (-z) := by
  obtain ⟨n, rfl, hn⟩ := h
  refine ⟨-n, ?_, ?_⟩
  · rw [lastPlace_neg]
    push_cast
    ring
  · rw [lastPlace_neg, neg_div]
    exact hn.neg

/-- Rounding does not cross a double. -/
theorem IsNearest.le_of_le (h : IsNearest q z) (hr : IsMultiple r (lastPlace q)) (hle : r ≤ q) : r ≤ z := by
  obtain ⟨n, rfl, hn⟩ := h
  obtain ⟨m, rfl⟩ := hr
  have hpos := two_zpow_pos (lastPlace q)
  have hmn : m ≤ n := hn.le_of_le ((le_div_iff₀ hpos).mpr hle)
  exact mul_le_mul_of_nonneg_right (by exact_mod_cast hmn) hpos.le

theorem IsNearest.ge_of_ge (h : IsNearest q z) (hr : IsMultiple r (lastPlace q)) (hge : q ≤ r) : z ≤ r := by
  rw [← neg_le_neg_iff]
  refine h.neg.le_of_le ?_ (neg_le_neg hge)
  rw [lastPlace_neg]
  exact hr.neg

theorem IsNearest.nonneg (h : IsNearest q z) (hq : 0 ≤ q) : 0 ≤ z := h.le_of_le (isMultiple_zero _) hq

/-- A number is rounded to one double. -/
theorem IsNearest.unique {w : ℚ} (h : IsNearest q z) (h' : IsNearest q w) : z = w := by
  obtain ⟨n, rfl, hn⟩ := h
  obtain ⟨m, rfl, hm⟩ := h'
  rw [hn.unique hm]

/-- A double is not rounded. -/
theorem IsNearest.eq_of_multiple (h : IsNearest q z) (hq : IsMultiple q (lastPlace q)) : z = q :=
  le_antisymm (h.ge_of_ge hq le_rfl) (h.le_of_le hq le_rfl)

theorem isNearest_self (hq : IsMultiple q (lastPlace q)) : IsNearest q q := by
  obtain ⟨n, hn⟩ := hq
  refine ⟨n, hn, ?_⟩
  have heq : q / 2 ^ lastPlace q = n := (div_eq_iff (two_zpow_pos _).ne').mpr hn
  rw [heq]
  exact isRounded_intCast n

theorem isNearest_zero : IsNearest 0 0 := isNearest_self (isMultiple_zero _)

/-- Rounding moves a number by no more than half a unit. -/
theorem IsNearest.error_le (h : IsNearest q z) : |q - z| ≤ 2 ^ (lastPlace q - 1) := by
  obtain ⟨n, rfl, hclose, -⟩ := h
  have hpos := two_zpow_pos (lastPlace q)
  have hfactor : q - n * 2 ^ lastPlace q = (q / 2 ^ lastPlace q - n) * 2 ^ lastPlace q := by
    rw [sub_mul, div_mul_cancel₀ _ hpos.ne']
  rw [hfactor, abs_mul, abs_of_pos hpos, zpow_sub_one₀ two_ne_zero]
  calc |q / 2 ^ lastPlace q - n| * 2 ^ lastPlace q ≤ 1 / 2 * 2 ^ lastPlace q :=
        mul_le_mul_of_nonneg_right hclose hpos.le
    _ = 2 ^ lastPlace q * 2⁻¹ := by ring

/-- A double with a zero in its last place takes in the whole of the half unit on either side of it. -/
theorem IsNearest.eq_of_even (h : IsNearest q z) (hr : IsMultiple r (lastPlace q + 1))
    (hclose : |q - r| ≤ 2 ^ (lastPlace q - 1)) : z = r := by
  obtain ⟨n, rfl, hn⟩ := h
  obtain ⟨m, rfl⟩ := hr
  have hpos := two_zpow_pos (lastPlace q)
  have hdouble : (m : ℚ) * 2 ^ (lastPlace q + 1) = ((2 * m : ℤ) : ℚ) * 2 ^ lastPlace q := by
    rw [zpow_add_one₀ two_ne_zero]
    push_cast
    ring
  rw [hdouble] at hclose ⊢
  have hfactor : q - ((2 * m : ℤ) : ℚ) * 2 ^ lastPlace q
      = (q / 2 ^ lastPlace q - ((2 * m : ℤ) : ℚ)) * 2 ^ lastPlace q := by
    rw [sub_mul, div_mul_cancel₀ _ hpos.ne']
  rw [hfactor, abs_mul, abs_of_pos hpos, zpow_sub_one₀ two_ne_zero, mul_comm] at hclose
  have hhalf : |q / 2 ^ lastPlace q - ((2 * m : ℤ) : ℚ)| ≤ 1 / 2 := by
    rw [one_div]
    exact le_of_mul_le_mul_left hclose hpos
  rw [hn.eq_of_even (even_two_mul m) hhalf]

end LiveTemplate.Number
