import LiveTemplate.Text.Position
import Mathlib.Data.List.TakeWhile
import Mathlib.Data.String.Basic
/-!
# Places in a text

An offset counts bytes and a position counts lines and columns.  If a text is cut in two between
characters, then the length of the first part is the offset of the cut, and the position of this
offset is the one that the first part leads to.

A column counts the characters of the last line of what stands before, which is all of it after the
last line break.
-/

set_option autoImplicit false

namespace LiveTemplate.Position

variable {c : Char} {cs before rest : List Char}

/-! ## Lengths -/

theorem foldl_utf8Size (n : Nat) (cs : List Char) :
    cs.foldl (fun n c => n + c.utf8Size) n = n + byteLength cs := by
  unfold byteLength
  induction cs generalizing n with
  | nil => rfl
  | cons c cs ih => rw [List.foldl_cons, List.foldl_cons, ih, ih (0 + _), Nat.zero_add, Nat.add_assoc]

theorem byteLength_cons (c : Char) (cs : List Char) :
    byteLength (c :: cs) = c.utf8Size + byteLength cs :=
  (foldl_utf8Size (0 + c.utf8Size) cs).trans (by rw [Nat.zero_add])

theorem byteLength_append (before rest : List Char) :
    byteLength (before ++ rest) = byteLength before + byteLength rest := by
  rw [byteLength, List.foldl_append, foldl_utf8Size]
  rfl

/-- The length of a text is that of its characters. -/
theorem utf8ByteSize_eq (text : String) : text.utf8ByteSize = byteLength text.toList := by
  have hlength : ∀ cs : List Char, String.utf8Len cs = byteLength cs := by
    intro cs
    induction cs with
    | nil => rfl
    | cons c cs ih => rw [String.utf8Len_cons, byteLength_cons, ih, Nat.add_comm]
  rw [← hlength, ← String.utf8ByteSize_ofList, String.ofList_toList]

/-! ## Cuts -/

/-- The characters before a cut are found by its offset. -/
theorem charsBefore_byteLength (before rest : List Char) :
    charsBefore? (byteLength before) (before ++ rest) = some before := by
  induction before with
  | nil => cases rest <;> rfl
  | cons c before ih =>
    have hpos : 0 < c.utf8Size := Char.utf8Size_pos c
    have hle : c.utf8Size ≤ c.utf8Size + byteLength before := Nat.le_add_right _ _
    have hnot : (c.utf8Size + byteLength before == 0) = false := by
      rw [beq_eq_false_iff_ne]
      omega
    rw [List.cons_append, byteLength_cons, charsBefore?, hnot, if_neg Bool.false_ne_true, if_pos hle,
      Nat.add_sub_cancel_left, ih]
    rfl

/-- **The position of a cut** is the one that the text before it leads to. -/
theorem ofOffset_byteLength {text : String} (h : text.toList = before ++ rest) :
    ofOffset text (byteLength before) = after before := by
  simp only [ofOffset, h, byteLength_append, Nat.min_eq_left (Nat.le_add_right _ _),
    charsBefore_byteLength, Option.getD_some]

/-- What is left of a text after a cut tells where the cut is. -/
theorem offset_of_rest {text : String} (h : text.toList = before ++ rest) :
    text.utf8ByteSize - byteLength rest = byteLength before := by
  rw [utf8ByteSize_eq, h, byteLength_append, Nat.add_sub_cancel]

/-! ## Lines -/

/-- The text ends with the line: there is no line break in it, and one before it unless it is the
first line. -/
structure EndsWithLine (text line : List Char) : Prop where
  unbroken : '\n' ∉ line
  broken : line = text ∨ ∃ earlier, text = earlier ++ '\n' :: line

theorem EndsWithLine.column {line : List Char} (h : EndsWithLine before line) :
    (after before).column = line.length + 1 := by
  have hreverse : ∀ d ∈ line.reverse, (d != '\n') = true := by
    intro d hd
    rw [bne_iff_ne]
    rintro rfl
    exact h.unbroken (List.mem_reverse.mp hd)
  unfold after
  obtain rfl | ⟨earlier, rfl⟩ := h.broken
  · simp [List.takeWhile_eq_self_iff.mpr hreverse]
  · simp [List.takeWhile_append_of_pos hreverse]

/-- Every text ends with a line. -/
theorem exists_line (before : List Char) : ∃ line, EndsWithLine before line := by
  induction before with
  | nil => exact ⟨[], by simp, .inl rfl⟩
  | cons c before ih =>
    obtain ⟨line, hunbroken, rfl | ⟨earlier, rfl⟩⟩ := ih
    · by_cases hc : c = '\n'
      · exact ⟨line, hunbroken, .inr ⟨[], by rw [hc]; rfl⟩⟩
      · refine ⟨c :: line, fun hmem => ?_, .inl rfl⟩
        rcases List.mem_cons.mp hmem with heq | hmem
        · exact hc heq.symm
        · exact hunbroken hmem
    · exact ⟨line, hunbroken, .inr ⟨c :: earlier, rfl⟩⟩

end LiveTemplate.Position
