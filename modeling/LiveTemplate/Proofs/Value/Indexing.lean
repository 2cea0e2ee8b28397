import LiveTemplate.Proofs.Library.Words
import LiveTemplate.Proofs.Number.Floor
/-!
# Elements by number

The element of an array that a number selects is the one at the rounded number, or that far from the end if
the number is negative.  The number is brought into a machine word before it is looked at, and a number
beyond the word becomes the last one of it, which no array is long enough to have: so infinity selects
nothing, as do all the numbers outside.  Not-a-number is brought into the word as zero, and selects the first
element.

This is so for arrays of every form, because each answers with its elements.
-/

set_option autoImplicit false

namespace LiveTemplate

namespace Number

variable {x : Float}

/-! ## Positions -/

theorem toInt64_round_finite (hx : x.isFinite = true) :
    toInt64 (round x) = max minInt64 (min maxInt64 (roundAway (value x))) := by
  obtain ⟨hfinite, hvalue⟩ := round_denotes hx
  unfold toInt64
  rw [clampInt_eq hfinite, hvalue, truncate_intCast]

theorem toInt64_round_infinite (hx : x.isInf = true) :
    toInt64 (round x) = minInt64 ∨ toInt64 (round x) = maxInt64 := by
  obtain ⟨s, hreading⟩ := reading_of_isInf hx
  have hround : round x = x := by
    unfold round Exact.roundWith
    rw [hreading]
  unfold toInt64 clampInt
  rw [hround, hreading]
  cases s
  · exact .inl rfl
  · exact .inr rfl

theorem toInt64_round_nan (hx : x.isNaN = true) : toInt64 (round x) = 0 := by
  have hreading := reading_of_isNaN hx
  have hround : round x = x := by
    unfold round Exact.roundWith
    rw [hreading]
  unfold toInt64 clampInt
  rw [hround, hreading]

end Number

namespace Value

open Number (InWord minInt64 maxInt64 value roundAway)

variable {store : Store} {v : Value} {x : Float} {n : Int}

/-- An array has no entries. -/
theorem entries_of_array (h : v.kind = .array) : v.entries store = [] := by
  cases v with
  | view ref document path =>
    cases hshown : shown document path with
    | object fields =>
      rw [kind, hshown] at h
      cases h
    | _ => simp [entries, hshown]
  | map => cases h
  | mutableMap => cases h
  | context => cases h
  | _ => rfl

theorem size_of_array (h : v.kind = .array) : v.size store = (v.items store).length := by
  have hsize : v.size store = (v.items store).length + (v.entries store).length := by
    cases v with
    | text => cases h
    | _ => rfl
  rw [hsize, entries_of_array h]
  rfl

/-- The rounded number is a position from the beginning or from the end. -/
theorem selectItem_inside (hkind : v.kind = .array) (hn : Number.toInt64 (Number.round x) = n) {i : Nat}
    (hi : i < (v.items store).length) (hposition : n = i ∨ n = i - (v.items store).length) :
    v.selectItem store x = (v.items store)[i] := by
  have hitem : v.item store i = (v.items store)[i] := by
    unfold item
    rw [List.getElem?_eq_getElem hi]
    rfl
  have hindex : (if n < 0 then n + (v.items store).length else n) = (i : Int) := by split <;> omega
  unfold selectItem
  simp only [hn, size_of_array hkind, hindex]
  rw [if_pos (by omega), Int.toNat_natCast, hitem]

theorem selectItem_outside (hkind : v.kind = .array) (hn : Number.toInt64 (Number.round x) = n)
    (houtside : n < -(v.items store).length ∨ (v.items store).length ≤ n) : v.selectItem store x = .null := by
  unfold selectItem
  simp only [hn, size_of_array hkind]
  exact if_neg (by split <;> omega)

/-- **An array answers a number with an element or null.**  A finite number selects the element at the integer
that it is rounded to, halves away from zero, or as far from the end if that is negative; it selects nothing
if there is no such element.  Infinity selects nothing either.  Not-a-number selects what zero does.  No step
leaves its machine word, given that the number of elements is in one, as it is of every array in memory. -/
theorem selectIndex_array (hkind : v.kind = .array) (hlength : InWord (v.size store)) (x : Float) :
    (∀ (i : Nat) (hi : i < (v.items store).length), x.isFinite = true →
      roundAway (value x) = i ∨ roundAway (value x) = i - (v.items store).length →
      v.selectIndex store (.number x) = (v.items store)[i]) ∧
    (x.isFinite = true →
      roundAway (value x) < -(v.items store).length ∨ (v.items store).length ≤ roundAway (value x) →
      v.selectIndex store (.number x) = .null) ∧
    (x.isInf = true → v.selectIndex store (.number x) = .null) ∧
    (x.isNaN = true → v.selectIndex store (.number x) = (v.items store).headD .null) ∧
    Library.selectItemInWords store v x = some (v.selectIndex store (.number x)) := by
  have hsize : v.size store = (v.items store).length := size_of_array hkind
  have hselect : v.selectIndex store (.number x) = v.selectItem store x := by
    unfold selectIndex
    rw [hkind]
    rfl
  have hwords := Library.selectItem_in_words (x := x) hlength
  rw [hsize] at hlength
  obtain ⟨-, hlength⟩ := hlength
  unfold maxInt64 at hlength
  rw [hselect]
  refine ⟨fun i hi hfinite hposition => ?_, fun hfinite houtside => ?_, fun hinfinite => ?_, fun hnan => ?_, hwords⟩
  · refine selectItem_inside hkind (Number.toInt64_round_finite hfinite) hi ?_
    unfold minInt64 maxInt64
    omega
  · refine selectItem_outside hkind (Number.toInt64_round_finite hfinite) ?_
    unfold minInt64 maxInt64
    omega
  · rcases Number.toInt64_round_infinite hinfinite with hleast | hmost
    · exact selectItem_outside hkind hleast (.inl (by unfold minInt64; omega))
    · exact selectItem_outside hkind hmost (.inr (by unfold maxInt64; omega))
  · have hzero := Number.toInt64_round_nan hnan
    cases hitems : v.items store with
    | nil =>
      have hempty : ((v.items store).length : Int) ≤ 0 := by rw [hitems]; exact le_rfl
      exact selectItem_outside hkind hzero (.inr hempty)
    | cons first rest =>
      have hfirst : 0 < (v.items store).length := by
        rw [hitems]
        exact Nat.succ_pos _
      rw [selectItem_inside hkind hzero hfirst (.inl rfl)]
      simp [hitems]

/-- Of three elements the last is selected by minus one, the first by not-a-number, and none by infinity. -/
theorem selectIndex_array_of_three :
    (array 2 [number 10.0, number 20.0, number 30.0]).selectIndex .empty (number (-1.0)) = number 30.0 ∧
    (array 2 [number 10.0, number 20.0, number 30.0]).selectIndex .empty (number Number.nan) = number 10.0 ∧
    (array 2 [number 10.0, number 20.0, number 30.0]).selectIndex .empty (number Number.infinity) = null := by
  have hkind : (array 2 [number 10.0, number 20.0, number 30.0]).kind = .array := rfl
  have hlength : InWord ((array 2 [number 10.0, number 20.0, number 30.0]).size .empty) := by decide
  have hunpack : (-1.0 : Float).toModel.unpack = .finite .negative (2 ^ 52) (-52) (by decide) := rfl
  have hround : roundAway (value (-1.0)) = -1 := by
    rw [Number.value_finite hunpack]
    decide +kernel
  obtain ⟨helement, -⟩ := selectIndex_array hkind hlength (-1.0)
  obtain ⟨-, -, -, hnan, -⟩ := selectIndex_array hkind hlength Number.nan
  obtain ⟨-, -, hinfinite, -⟩ := selectIndex_array hkind hlength Number.infinity
  exact ⟨helement 2 (by decide) rfl (.inr hround), hnan rfl, hinfinite rfl⟩

/-- Not-a-number selects an element, though it is no position. -/
theorem selectIndex_not_null_of_nan : Number.nan.isNaN = true ∧
    (array 2 [number 1.0]).selectIndex .empty (number Number.nan) = number 1.0 ∧ number 1.0 ≠ null := by
  have hzero : Number.toInt64 (Number.round Number.nan) = 0 := Number.toInt64_round_nan rfl
  have hfirst : 0 < ((array 2 [number 1.0]).items .empty).length := Nat.one_pos
  have hkind : (array 2 [number 1.0]).kind = .array := rfl
  exact ⟨rfl, selectItem_inside hkind hzero hfirst (.inl rfl), nofun⟩

end Value

end LiveTemplate
