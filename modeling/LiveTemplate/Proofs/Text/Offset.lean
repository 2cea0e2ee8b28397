import LiveTemplate.Proofs.Text.Position
/-!
# Offsets and the order of positions

An offset is any number of bytes.  It has room for some of the first characters of a text, and `Fits`
says which: the longest part of whole characters that is not longer than the offset.  Nearly always the
position of the offset is the one that this part leads to.  Only an offset inside a character has the
position of the end of the text.

Each character leads to a later position, so positions ascend with the offsets as long as none of these is
inside a character.  The position of an offset inside a character comes after those of all the following
offsets that are not, up to the end.
-/

set_option autoImplicit false

namespace LiveTemplate.Position

/-- A position is not after another one: it is on an earlier line, or on the same line and not further to
the right. -/
instance : LE Position := ⟨fun p q => p.line < q.line ∨ p.line = q.line ∧ p.column ≤ q.column⟩

/-- What an offset has room for: the longest part at the beginning of the characters that is not longer. -/
structure Fits (offset : Nat) (cs before : List Char) : Prop where
  starts : before <+: cs
  le : byteLength before ≤ offset
  longest : ∀ longer, longer <+: cs → byteLength longer ≤ offset → longer <+: before

/-- The offset is after the first byte of a character and before the end of this character. -/
def Inside (offset : Nat) (cs : List Char) : Prop :=
  ∃ before c rest, cs = before ++ c :: rest ∧ byteLength before < offset ∧
    offset < byteLength before + c.utf8Size

variable {offset earlier later : Nat} {c : Char} {cs before longer rest line : List Char}

/-! ## What an offset has room for -/

theorem byteLength_le (h : before <+: cs) : byteLength before ≤ byteLength cs := by
  obtain ⟨rest, rfl⟩ := h
  rw [byteLength_append]
  exact Nat.le_add_right _ _

/-- Every offset cuts the characters in two, and there is no room for the first one after the cut. -/
theorem exists_cut (offset : Nat) (cs : List Char) :
    ∃ before rest, cs = before ++ rest ∧ byteLength before ≤ offset ∧
      ∀ c ∈ rest.head?, offset < byteLength before + c.utf8Size := by
  induction cs generalizing offset with
  | nil => exact ⟨[], [], rfl, Nat.zero_le _, nofun⟩
  | cons c cs ih =>
    by_cases hfits : c.utf8Size ≤ offset
    · obtain ⟨before, rest, rfl, hle, hnext⟩ := ih (offset - c.utf8Size)
      refine ⟨c :: before, rest, rfl, ?_, fun d hd => ?_⟩
      · rw [byteLength_cons]
        omega
      · have hroom := hnext d hd
        rw [byteLength_cons]
        omega
    · refine ⟨[], c :: cs, rfl, Nat.zero_le _, fun d hd => ?_⟩
      obtain rfl : c = d := Option.some.inj hd
      show offset < 0 + c.utf8Size
      omega

/-- A part at the beginning ends at the cut or before it, or the first character after the cut belongs to it. -/
theorem starts_cases (h : longer <+: before ++ rest) :
    longer <+: before ∨ ∃ c ∈ rest.head?, byteLength before + c.utf8Size ≤ byteLength longer := by
  rcases List.prefix_or_prefix_of_prefix h (List.prefix_append before rest) with hle | ⟨more, rfl⟩
  · exact .inl hle
  · cases more with
    | nil => exact .inl (by simp)
    | cons c more =>
      obtain ⟨tail, rfl⟩ := (List.prefix_append_right_inj before).mp h
      refine .inr ⟨c, rfl, ?_⟩
      rw [byteLength_append, byteLength_cons]
      omega

/-- What stands before the cut is the longest part that fits. -/
theorem fits_of_cut (hle : byteLength before ≤ offset)
    (hnext : ∀ c ∈ rest.head?, offset < byteLength before + c.utf8Size) :
    Fits offset (before ++ rest) before := by
  refine ⟨List.prefix_append _ _, hle, fun longer hstarts hroom => ?_⟩
  rcases starts_cases hstarts with h | ⟨c, hc, hlonger⟩
  · exact h
  · exact absurd (hlonger.trans hroom) (Nat.not_le.mpr (hnext c hc))

theorem exists_fits (offset : Nat) (cs : List Char) : ∃ before, Fits offset cs before := by
  obtain ⟨before, rest, rfl, hle, hnext⟩ := exists_cut offset cs
  exact ⟨before, fits_of_cut hle hnext⟩

theorem Fits.unique (h : Fits offset cs before) (k : Fits offset cs longer) : before = longer :=
  (k.longest before h.starts h.le).eq_of_length_le (h.longest longer k.starts k.le).length_le

/-- A later offset has room for more. -/
theorem Fits.mono (h : Fits earlier cs before) (hle : earlier ≤ later) (k : Fits later cs longer) :
    before <+: longer :=
  k.longest before h.starts (h.le.trans hle)

/-- Behind the end there is room for everything. -/
theorem Fits.eq_of_le (h : Fits offset cs before) (hle : byteLength cs ≤ offset) : before = cs :=
  h.starts.eq_of_length_le (h.longest cs (List.prefix_refl cs) hle).length_le

/-- An offset that is not inside a character is as long as what fits, or behind the end. -/
theorem Fits.byteLength_eq (h : Fits offset cs before) (houtside : ¬Inside offset cs) :
    byteLength before = min offset (byteLength cs) := by
  by_cases hend : byteLength cs ≤ offset
  · rw [h.eq_of_le hend, Nat.min_eq_right hend]
  · obtain ⟨before', rest, rfl, hle, hnext⟩ := exists_cut offset cs
    obtain rfl := h.unique (fits_of_cut hle hnext)
    rw [Nat.min_eq_left (Nat.le_of_not_le hend)]
    cases rest with
    | nil => exact absurd (by rwa [List.append_nil]) hend
    | cons c rest =>
      by_contra hne
      exact houtside ⟨before, c, rest, rfl, Nat.lt_of_le_of_ne hle hne, hnext c rfl⟩

/-! ## Where an offset is -/

/-- What is found for an offset is as long as the offset. -/
theorem byteLength_of_charsBefore (h : charsBefore? offset cs = some before) :
    before <+: cs ∧ byteLength before = offset := by
  induction cs generalizing offset before with
  | nil =>
    rw [charsBefore?] at h
    split at h
    · next hzero =>
      obtain rfl := Option.some.inj h
      exact ⟨List.prefix_refl _, (beq_iff_eq.mp hzero).symm⟩
    · cases h
  | cons c cs ih =>
    rw [charsBefore?] at h
    split at h
    · next hzero =>
      obtain rfl := Option.some.inj h
      exact ⟨List.nil_prefix, (beq_iff_eq.mp hzero).symm⟩
    · split at h
      · next hfits =>
        obtain ⟨before', hbefore', rfl⟩ := Option.map_eq_some_iff.mp h
        obtain ⟨hstarts, hlength⟩ := ih hbefore'
        refine ⟨List.cons_prefix_cons.mpr ⟨rfl, hstarts⟩, ?_⟩
        rw [byteLength_cons, hlength, Nat.add_sub_cancel' hfits]
      · cases h

/-- No part of whole characters is as long as an offset inside a character. -/
theorem Inside.ne_byteLength (h : Inside offset cs) (hstarts : longer <+: cs) :
    byteLength longer ≠ offset := by
  obtain ⟨before, c, rest, rfl, hlt, hbeyond⟩ := h
  rcases starts_cases hstarts with hle | ⟨d, hd, hlonger⟩
  · exact Nat.ne_of_lt ((byteLength_le hle).trans_lt hlt)
  · obtain rfl : c = d := Option.some.inj hd
    exact Nat.ne_of_gt (hbeyond.trans_le hlonger)

theorem Inside.lt (h : Inside offset cs) : offset < byteLength cs := by
  obtain ⟨before, c, rest, rfl, -, hbeyond⟩ := h
  rw [byteLength_append, byteLength_cons]
  omega

variable {text : String}

/-- The position of an offset that is not inside a character is the one that what fits leads to. -/
theorem ofOffset_outside (houtside : ¬Inside offset text.toList) (h : Fits offset text.toList before) :
    ofOffset text offset = after before := by
  obtain ⟨rest, hrest⟩ := h.starts
  have hcut : ofOffset text (byteLength before) = after before := ofOffset_byteLength hrest.symm
  have hmin : min (byteLength before) (byteLength text.toList) = byteLength before :=
    Nat.min_eq_left (byteLength_le h.starts)
  rw [← hcut, ofOffset, ofOffset, hmin, h.byteLength_eq houtside]

/-- The position of an offset inside a character is that of the end. -/
theorem ofOffset_inside (hinside : Inside offset text.toList) :
    ofOffset text offset = after text.toList := by
  unfold ofOffset
  simp only [Nat.min_eq_left (Nat.le_of_lt hinside.lt)]
  cases hfound : charsBefore? offset text.toList with
  | none => rfl
  | some before =>
    obtain ⟨hstarts, hlength⟩ := byteLength_of_charsBefore hfound
    exact absurd hlength (hinside.ne_byteLength hstarts)

/-! ## The order of positions -/

theorem EndsWithLine.append (h : EndsWithLine before line) (hrest : '\n' ∉ rest) :
    EndsWithLine (before ++ rest) (line ++ rest) where
  unbroken hmem := (List.mem_append.mp hmem).elim h.unbroken hrest
  broken := by
    rcases h.broken with rfl | ⟨earlier, rfl⟩
    · exact .inl rfl
    · exact .inr ⟨earlier, by rw [List.append_assoc, List.cons_append]⟩

/-- More characters lead to a later position: on a later line if there is a line break among them, and
otherwise as far to the right as they are many. -/
theorem after_append (before rest : List Char) :
    (after before).line < (after (before ++ rest)).line ∨
      (after (before ++ rest)).line = (after before).line ∧
        (after (before ++ rest)).column = (after before).column + rest.length := by
  have hline : (after (before ++ rest)).line = (after before).line + rest.count '\n' := by
    show (before ++ rest).count '\n' + 1 = before.count '\n' + 1 + rest.count '\n'
    rw [List.count_append]
    omega
  by_cases hbreak : '\n' ∈ rest
  · have hpos : 0 < rest.count '\n' := List.count_pos_iff.mpr hbreak
    exact .inl (by omega)
  · obtain ⟨line, hends⟩ := exists_line before
    refine .inr ⟨by rw [hline, List.count_eq_zero_of_not_mem hbreak, Nat.add_zero], ?_⟩
    rw [(hends.append hbreak).column, hends.column, List.length_append]
    omega

theorem after_le (h : before <+: longer) : after before ≤ after longer := by
  obtain ⟨rest, rfl⟩ := h
  rcases after_append before rest with hline | ⟨hline, hcolumn⟩
  · exact .inl hline
  · exact .inr ⟨hline.symm, hcolumn ▸ Nat.le_add_right _ _⟩

/-- Of two parts of a text the longer one leads to a later position. -/
theorem eq_of_after_le (h : before <+: longer) (hle : after longer ≤ after before) : before = longer := by
  obtain ⟨rest, rfl⟩ := h
  have hnone : rest.length = 0 := by
    rcases after_append before rest with hline | ⟨hline, hcolumn⟩ <;>
      rcases hle with hlt | ⟨heq, hle⟩ <;> omega
  rw [List.eq_nil_of_length_eq_zero hnone, List.append_nil]

/-- **Positions ascend with offsets that are not inside a character.**  Such an offset has the position that
the characters before it lead to: one line more than there are line breaks, and one column more than there
are characters after the last one.  An offset inside a character has the position of the end, and this is
after that of a later offset unless the later one has the position of the end, too. -/
theorem ofOffset_ascends (text : String) :
    (∀ offset, ∃ before line, Fits offset text.toList before ∧ EndsWithLine before line ∧
      (¬Inside offset text.toList →
        ofOffset text offset = ⟨1 + before.count '\n', 1 + line.length⟩) ∧
      (Inside offset text.toList → ofOffset text offset = ofOffset text text.utf8ByteSize)) ∧
    ∀ earlier later, earlier ≤ later → (ofOffset text earlier ≤ ofOffset text later ↔
      (Inside earlier text.toList → Inside later text.toList ∨ text.utf8ByteSize ≤ later)) := by
  have hend : ofOffset text text.utf8ByteSize = after text.toList := by
    rw [utf8ByteSize_eq]
    exact ofOffset_byteLength (List.append_nil _).symm
  constructor
  · intro offset
    obtain ⟨before, hfits⟩ := exists_fits offset text.toList
    obtain ⟨line, hline⟩ := exists_line before
    refine ⟨before, line, hfits, hline, fun houtside => ?_, fun hinside => ?_⟩
    · have hcolumn : (after before).column = 1 + line.length := by rw [hline.column, Nat.add_comm]
      rw [ofOffset_outside houtside hfits, ← hcolumn, Nat.add_comm 1]
      rfl
    · rw [ofOffset_inside hinside, hend]
  · intro earlier later hle
    obtain ⟨before, hbefore⟩ := exists_fits earlier text.toList
    obtain ⟨longer, hlonger⟩ := exists_fits later text.toList
    rw [utf8ByteSize_eq]
    by_cases hinside : Inside earlier text.toList <;> by_cases hinside' : Inside later text.toList
    · simp only [ofOffset_inside hinside, ofOffset_inside hinside', hinside, hinside', true_or, iff_true,
        forall_const]
      exact after_le (List.prefix_refl _)
    · simp only [ofOffset_inside hinside, ofOffset_outside hinside' hlonger, hinside, hinside', false_or,
        forall_const]
      refine ⟨fun hle => ?_, fun hle => ?_⟩
      · rw [← eq_of_after_le hlonger.starts hle]
        exact hlonger.le
      · rw [hlonger.eq_of_le hle]
        exact after_le (List.prefix_refl _)
    · simp only [ofOffset_outside hinside hbefore, ofOffset_inside hinside', hinside, false_implies, iff_true]
      exact after_le hbefore.starts
    · simp only [ofOffset_outside hinside hbefore, ofOffset_outside hinside' hlonger, hinside, false_implies,
        iff_true]
      exact after_le (hbefore.mono hle hlonger)

/-- The first offset is inside a character of two bytes, and its position comes after that of the second one,
which is right behind this character. -/
theorem ofOffset_ascends_behind_accent : (2 : Nat) ≤ 3 ∧ ofOffset "é\nb" 2 ≤ ofOffset "é\nb" 3 ∧
    (1 : Nat) ≤ 2 ∧ ¬ofOffset "é\nb" 1 ≤ ofOffset "é\nb" 2 := by
  obtain ⟨-, hascends⟩ := ofOffset_ascends "é\nb"
  have hinside : Inside 1 "é\nb".toList := ⟨[], 'é', ['\n', 'b'], by decide, by decide, by decide⟩
  have hbehind : ¬Inside 2 "é\nb".toList := fun h =>
    h.ne_byteLength (⟨['\n', 'b'], by decide⟩ : ['é'] <+: "é\nb".toList) (by decide)
  refine ⟨by decide, (hascends 2 3 (by decide)).mpr fun h => absurd h hbehind, by decide, fun hle => ?_⟩
  rcases (hascends 1 2 (by decide)).mp hle hinside with h | hend
  · exact hbehind h
  · exact absurd hend (by decide)

end LiveTemplate.Position
