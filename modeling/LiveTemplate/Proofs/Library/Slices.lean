import LiveTemplate.Proofs.Number.Floor
import LiveTemplate.Proofs.Operator.Overflow
/-!
# Slices

A bound of a slice is a number of any kind, and denotes a position in the sequence: its integer part, counted
from the end if it is negative, and moved into the sequence (`position`).  The bound is brought into a machine
word first.  A number beyond the word becomes the last one of it, which is as far outside of a sequence that is
no longer than a word can say; so nothing is lost, and infinity is no exception.

A slice is the part between two such positions, and it is the same rule for the characters of a text as for the
elements of an array (`Slices`).
-/

set_option autoImplicit false

namespace LiveTemplate.Library

open Number (InWord minInt64 maxInt64 toInt64 truncate value)

variable {α : Type} {x : Float} {length : Nat} {sequence : List α}

/-! ## Positions -/

/-- An integer as a position in a sequence of some length: counted from the end if it is negative, and moved
into the sequence. -/
def within (n : ℤ) (length : Nat) : Nat := (max 0 (min (if n < 0 then n + length else n) length)).toNat

/-- The position that a number denotes in a sequence of some length.  The fraction does not count, infinity is
beyond all positions, and not-a-number counts as zero. -/
def position (x : Float) (length : Nat) : Nat := match Exact.ofFloat x with
  | .nan => 0
  | .infinite negative => if negative then 0 else length
  | .finite .. => within (truncate (value x)) length

/-- A bound of a slice denotes its position. -/
theorem clampIndex_eq (hlength : InWord length) : clampIndex x length = position x length := by
  obtain ⟨-, hlength⟩ := hlength
  unfold clampIndex position
  cases hreading : Exact.ofFloat x with
  | nan =>
    have hzero : toInt64 x = 0 := by
      unfold toInt64 Number.clampInt
      rw [hreading]
    rw [hzero]
    rfl
  | infinite negative =>
    have hend : toInt64 x = if negative then minInt64 else maxInt64 := by
      unfold toInt64 Number.clampInt
      rw [hreading]
    rw [hend]
    unfold minInt64 maxInt64 at *
    cases negative
    · simp only [Bool.false_eq_true, if_false]
      omega
    · simp only [if_true]
      omega
  | finite negative m e =>
    have hfinite := Number.isFinite_of_reading hreading
    have hinteger : toInt64 x = max minInt64 (min maxInt64 (truncate (value x))) := Number.clampInt_eq hfinite _ _
    rw [hinteger]
    unfold within
    unfold minInt64 maxInt64 at *
    dsimp only
    omega

/-! ## Parts of sequences -/

/-- The place of a bound, which may be missing. -/
def boundary (length missing : Nat) (bound : Option Float) : Nat := bound.elim missing (clampIndex · length)

theorem boundary_le {length missing : Nat} (hmissing : missing ≤ length) (bound : Option Float) :
    boundary length missing bound ≤ length := by
  cases bound with
  | none => exact hmissing
  | some x => exact clampIndex_le x length

theorem slice_eq_extract (sequence : List α) (start stop : Option Float) : slice sequence start stop
    = sequence.extract (boundary sequence.length 0 start)
      (max (boundary sequence.length 0 start) (boundary sequence.length sequence.length stop)) := by
  have hslice : slice sequence start stop = (sequence.drop (boundary sequence.length 0 start)).take
      (boundary sequence.length sequence.length stop - boundary sequence.length 0 start) := by
    cases start <;> cases stop <;> rfl
  rw [hslice, List.extract_eq_take_drop]
  congr 1
  omega

theorem slice_between (hlength : InWord sequence.length) (x y : Float) : slice sequence (some x) (some y)
    = sequence.extract (position x sequence.length)
      (max (position x sequence.length) (position y sequence.length)) := by
  rw [slice_eq_extract, ← clampIndex_eq hlength, ← clampIndex_eq hlength]
  rfl

theorem slice_from (hlength : InWord sequence.length) (x : Float) :
    slice sequence (some x) none = sequence.drop (position x sequence.length) := by
  rw [← clampIndex_eq hlength]
  exact List.take_of_length_le (by rw [List.length_drop])

/-- The part up to a position and the part from there make up the sequence. -/
theorem slice_append (hlength : InWord sequence.length) (x : Float) :
    slice sequence (some 0.0) (some x) ++ slice sequence (some x) none = sequence := by
  have hzero : position 0.0 sequence.length = 0 := by
    have hinteger : toInt64 0.0 = 0 := by decide
    rw [← clampIndex_eq hlength]
    unfold clampIndex
    rw [hinteger]
    simp
  rw [slice_between hlength, slice_from hlength, hzero, List.extract_eq_take_drop, List.drop_zero, Nat.zero_max,
    Nat.sub_zero, List.take_append_drop]

/-! ## Parts in machine words -/

/-- The place of a bound, in machine words. -/
def boundaryInWords (length missing : Nat) (bound : Option Float) : Option Nat :=
  bound.elim (some missing) (clampIndexInWords · length)

/-- The part of a sequence between two bounds as the machine takes it: there is none if a word overflows, if the
part ends before it starts, or if it ends outside of the sequence. -/
def sliceInWords (sequence : List α) (start stop : Option Float) : Option (List α) := do
  let first ← boundaryInWords sequence.length 0 start
  let last ← boundaryInWords sequence.length sequence.length stop
  let last := max first last
  if first ≤ last ∧ last ≤ sequence.length then some (sequence.extract first last) else none

theorem boundary_in_words {missing : Nat} (hlength : InWord length) (bound : Option Float) :
    boundaryInWords length missing bound = some (boundary length missing bound) := by
  cases bound with
  | none => rfl
  | some x => exact clampIndex_in_words hlength

/-- **A part of a sequence is always there.** -/
theorem slice_in_words (hlength : InWord sequence.length) (start stop : Option Float) :
    sliceInWords sequence start stop = some (slice sequence start stop) := by
  have hfirst := boundary_le (Nat.zero_le sequence.length) start
  have hlast := boundary_le (Nat.le_refl sequence.length) stop
  unfold sliceInWords
  rw [boundary_in_words hlength, boundary_in_words hlength, slice_eq_extract]
  exact if_pos ⟨by omega, by omega⟩

/-! ## The functions -/

/-- What it is for a function of bounds to give the parts of a sequence.  `whole` is the value that a part
becomes. -/
structure Slices (sequence : List α) (whole : List α → Run Value) (sliced : List Value → Run Value) : Prop where
  /-- No bounds make the function fail. -/
  never : ∀ bounds, Run.Ends (fun _ => True) Run.Never (sliced bounds)
  /-- The part is there, in machine words and inside of the sequence. -/
  inside : ∀ bounds : List Value, bounds.length ≤ 2 → ∃ part,
    sliceInWords sequence (bounds[0]?.map Value.toNumber) (bounds[1]?.map Value.toNumber) = some part ∧
      sliced bounds = whole part
  /-- Two bounds are enough. -/
  surplus : ∀ bounds : List Value, 2 < bounds.length → sliced bounds = pure .null
  part : ∀ i j : Value, let p := position i.toNumber sequence.length
    sliced [i, j] = whole (sequence.extract p (max p (position j.toNumber sequence.length)))
  rest : ∀ i : Value, sliced [i] = whole (sequence.drop (position i.toNumber sequence.length))
  /-- The part up to a position and the part from there are the sequence. -/
  rejoin : ∀ k : Value, ∃ front back, sliced [.number 0.0, k] = whole front ∧ sliced [k] = whole back ∧
    front ++ back = sequence

/-- A function that turns the part between its bounds into a value gives the parts. -/
theorem slices_of_sliceBy {whole : List α → Run Value} {sliced : List Value → Run Value}
    (hlength : InWord sequence.length) (hnever : ∀ bounds, Run.Ends (fun _ => True) Run.Never (sliced bounds))
    (hsliced : ∀ bounds, sliced bounds = (sliceBy? sequence bounds).elim (pure .null) whole) :
    Slices sequence whole sliced where
  never := hnever
  inside bounds hbounds := match bounds with
    | [] => ⟨_, slice_in_words hlength none none, hsliced []⟩
    | [i] => ⟨_, slice_in_words hlength (some i.toNumber) none, hsliced [i]⟩
    | [i, j] => ⟨_, slice_in_words hlength (some i.toNumber) (some j.toNumber), hsliced [i, j]⟩
    | _ :: _ :: _ :: _ => absurd hbounds (by simp)
  surplus bounds hbounds := match bounds with
    | [] | [_] | [_, _] => absurd hbounds (by simp)
    | _ :: _ :: _ :: _ => hsliced _
  part i j := (hsliced [i, j]).trans (congrArg whole (slice_between hlength _ _))
  rest i := (hsliced [i]).trans (congrArg whole (slice_from hlength _))
  rejoin k := ⟨_, _, hsliced [.number 0.0, k], hsliced [k], slice_append hlength _⟩

/-- **The slices of texts and arrays.** -/
theorem call_slice (store : Store) (ref : Ref) (v : Value) :
    (InWord v.toText.toList.length → Slices v.toText.toList (fun part => pure (.text (String.ofList part)))
      fun bounds => call store ref .textSlice (v :: bounds)) ∧
    (v.kind = .array → InWord (v.items store).length → Slices (v.items store) Run.array
      fun bounds => call store ref .arraySlice (v :: bounds)) := by
  constructor
  · intro hlength
    refine slices_of_sliceBy hlength (fun bounds => call_never ref (fun _ => by simp) _) fun bounds => ?_
    rw [call]
    cases sliceBy? v.toText.toList bounds <;> rfl
  · intro harray hlength
    have hitems : itemsOf? store v = some (v.items store) := if_pos (beq_iff_eq.mpr harray)
    refine slices_of_sliceBy hlength (fun bounds => call_never ref (fun _ => by simp) _) fun bounds => ?_
    rw [call, hitems]
    cases hpart : sliceBy? (v.items store) bounds <;> simp only [hpart] <;> rfl

/-- Texts are cut between characters, and neither not-a-number nor infinity leaves the array. -/
theorem call_slice_ends :
    (InWord "Héllo".toList.length ∧ Slices "Héllo".toList (fun part => pure (.text (String.ofList part)))
      fun bounds => call Store.empty 0 .textSlice (.text "Héllo" :: bounds)) ∧
    (InWord 3 ∧ Slices [.null, .bool true, .text "c"] Run.array
      fun bounds => call Store.empty 0 .arraySlice (.array 0 [.null, .bool true, .text "c"] :: bounds)) ∧
    slice "Héllo".toList (some 1.9) (some (-2.0)) = "él".toList ∧
    slice [1, 2, 3] (some (-1.0 / 0.0)) (some (1.0 / 0.0)) = [1, 2, 3] ∧
    slice [1, 2, 3] (some (1.0 / 0.0)) (some (0.0 / 0.0)) = [] :=
  ⟨⟨by decide, (call_slice Store.empty 0 (.text "Héllo")).1 (by decide)⟩,
    ⟨by decide, (call_slice Store.empty 0 (.array 0 [.null, .bool true, .text "c"])).2 rfl (by decide)⟩,
    by decide, by decide, by decide⟩

end LiveTemplate.Library
