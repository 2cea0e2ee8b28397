import LiveTemplate.Operator.Arithmetic
import Mathlib.Data.List.Induction
/-!
# What stands side by side in a text

The segments of a text are merged from the left, and merging keeps every text: what is merged reads
as the segments do, one after another.

It does not make a text of everything.  An empty text lets its neighbour through as it is, and the
empty text is also what is merged of nothing.  So a value that is no text comes through exactly if it
meets the empty text on both sides: everything before it has been merged to the empty text, and
everything behind it is empty.
-/

set_option autoImplicit false

namespace LiveTemplate.Value

variable {a b v w : Value} {vs : List Value}

/-- The value is a text. -/
def IsText (v : Value) : Prop := ∃ s, v = .text s

theorem isEmptyText_iff : v.isEmptyText = true ↔ v = .text "" := by
  cases v <;> simp [isEmptyText]

@[simp]
theorem merge_empty_left (v : Value) : merge (.text "") v = v := rfl

theorem merge_empty_right (v : Value) : merge v (.text "") = v := by
  unfold merge
  split
  · next h => exact (isEmptyText_iff.mp h).symm
  · rfl

theorem merge_append (ha : a ≠ .text "") (hb : b ≠ .text "") : merge a b = append a b := by
  rw [merge, if_neg fun h => ha (isEmptyText_iff.mp h), if_neg fun h => hb (isEmptyText_iff.mp h)]

theorem toText_merge (a b : Value) : (merge a b).toText = a.toText ++ b.toText := by
  by_cases ha : a = .text ""
  · subst ha
    rw [merge_empty_left]
    exact (String.empty_append ..).symm
  by_cases hb : b = .text ""
  · subst hb
    rw [merge_empty_right]
    exact (String.append_empty ..).symm
  · rw [merge_append ha hb]
    rfl

/-- Merging lets a value through that is no text, or makes a text. -/
theorem merge_eq_iff (hw : ¬w.IsText) :
    merge a b = w ↔ a = .text "" ∧ b = w ∨ a = w ∧ b = .text "" := by
  constructor
  · intro h
    by_cases ha : a = .text ""
    · subst ha
      exact .inl ⟨rfl, h⟩
    by_cases hb : b = .text ""
    · subst hb
      exact .inr ⟨(merge_empty_right a).symm.trans h, rfl⟩
    · rw [merge_append ha hb] at h
      exact absurd ⟨_, h.symm⟩ hw
  · rintro (⟨rfl, rfl⟩ | ⟨rfl, rfl⟩)
    · rfl
    · exact merge_empty_right a

theorem mergeAll_eq_foldl (vs : List Value) : mergeAll vs = vs.foldl merge (.text "") := by
  cases vs <;> rfl

theorem mergeAll_concat (vs : List Value) (v : Value) : mergeAll (vs ++ [v]) = merge (mergeAll vs) v := by
  simp [mergeAll_eq_foldl]

/-- **Merging keeps every text.** -/
theorem toText_mergeAll (vs : List Value) : (mergeAll vs).toText = String.join (vs.map toText) := by
  induction vs using List.reverseRecOn with
  | nil => rfl
  | append_singleton vs v ih => simp [mergeAll_concat, toText_merge, ih]

/-- Where there is a text that is not empty, a text is made, and it is not empty either. -/
theorem mergeAll_of_mem {s : String} (hs : s ≠ "") (hmem : .text s ∈ vs) :
    ∃ t, t ≠ "" ∧ mergeAll vs = .text t := by
  induction vs using List.reverseRecOn with
  | nil => cases hmem
  | append_singleton vs v ih =>
    rw [mergeAll_concat]
    rcases List.mem_append.mp hmem with hbefore | hlast
    · obtain ⟨t, ht, hmerged⟩ := ih hbefore
      rw [hmerged]
      by_cases hv : v = .text ""
      · exact ⟨t, ht, by rw [hv, merge_empty_right]⟩
      · refine ⟨t ++ v.toText, by simp [ht], ?_⟩
        rw [merge_append (by simpa using ht) hv]
        rfl
    · obtain rfl := List.mem_singleton.mp hlast
      by_cases hmerged : mergeAll vs = .text ""
      · exact ⟨s, hs, by rw [hmerged, merge_empty_left]⟩
      · refine ⟨(mergeAll vs).toText ++ s, by simp [hs], ?_⟩
        rw [merge_append hmerged (by simpa using hs)]
        rfl

/-- The value meets the empty text on both sides. -/
def LetThrough (vs : List Value) (w : Value) : Prop :=
  ∃ before after, vs = before ++ w :: after ∧ mergeAll before = .text "" ∧ ∀ v ∈ after, v = .text ""

/-- **A value that is no text comes out of merging exactly if it is let through.** -/
theorem mergeAll_eq_iff (hw : ¬w.IsText) : mergeAll vs = w ↔ LetThrough vs w := by
  induction vs using List.reverseRecOn with
  | nil =>
    refine iff_of_false (fun h => hw ⟨_, h.symm⟩) ?_
    rintro ⟨before, after, hvs, -⟩
    simp at hvs
  | append_singleton vs v ih =>
    rw [mergeAll_concat, merge_eq_iff hw, ih]
    constructor
    · rintro (⟨hbefore, rfl⟩ | ⟨⟨before, after, rfl, hbefore, hafter⟩, rfl⟩)
      · exact ⟨vs, [], rfl, hbefore, by simp⟩
      · refine ⟨before, after ++ [.text ""], by simp, hbefore, ?_⟩
        simpa [or_imp, forall_and] using hafter
    · rintro ⟨before, after, hvs, hbefore, hafter⟩
      rcases List.eq_nil_or_concat after with rfl | ⟨init, last, rfl⟩
      · obtain ⟨rfl, rfl⟩ : vs = before ∧ v = w := by simpa using hvs
        exact .inl ⟨hbefore, rfl⟩
      · rw [List.concat_eq_append, ← List.cons_append, ← List.append_assoc] at hvs
        obtain ⟨rfl, hlast⟩ := List.append_inj' hvs rfl
        obtain rfl := List.singleton_inj.mp hlast
        exact .inr ⟨⟨before, init, rfl, hbefore, fun u hu => hafter u (by simp [hu])⟩,
          hafter _ (by simp)⟩

end LiveTemplate.Value
