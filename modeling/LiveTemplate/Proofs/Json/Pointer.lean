import LiveTemplate.Json.Basic
/-!
# Paths into a document

A view keeps the path to the place that it shows as a text, and its children extend this text by one
step.  So it has to be read back into the very steps that were taken, whatever field names they are:
empty ones, and names with `/` or `~` in them.  Reading undoes writing, because what is written never
holds a `/` and marks every `~`; and following an extended path is following the path and then
taking the step.
-/

set_option autoImplicit false

namespace LiveTemplate.Pointer

/-! ## Steps are read back -/

theorem unescape_escape (step : List Char) : unescape (escape step) = step := by
  induction step using escape.induct with
  | case1 => rfl
  | case2 rest ih => rw [escape, unescape, ih]
  | case3 rest ih => rw [escape, unescape, ih]
  | case4 c rest htilde _ ih =>
    rw [escape.eq_4 _ _ htilde ‹_›, unescape.eq_4, ih]
    · rintro _ rfl
      exact absurd rfl htilde
    · rintro _ rfl
      exact absurd rfl htilde

/-- No `/` is left in a step that is written. -/
theorem slash_not_mem_escape (step : List Char) : '/' ∉ escape step := by
  induction step using escape.induct with
  | case1 => simp [escape]
  | case2 rest ih => simpa [escape] using ih
  | case3 rest ih => simpa [escape] using ih
  | case4 c rest htilde hslash ih =>
    rw [escape.eq_4 _ _ htilde hslash, List.mem_cons, not_or]
    exact ⟨fun h => hslash h.symm, ih⟩

theorem splitSteps_ne_nil (text : List Char) : splitSteps text ≠ [] := by
  induction text using splitSteps.induct with
  | case1 => simp [splitSteps]
  | case2 rest _ => simp [splitSteps]
  | case3 c rest hslash hnil ih => exact absurd hnil ih
  | case4 c rest hslash step steps hsteps ih => simp [splitSteps.eq_3 _ _ hslash, hsteps]

/-- Without a `/` there is one step. -/
theorem splitSteps_one {text : List Char} (h : '/' ∉ text) : splitSteps text = [text] := by
  induction text with
  | nil => rfl
  | cons c rest ih =>
    rw [List.mem_cons, not_or] at h
    rw [splitSteps.eq_3 _ _ (Ne.symm h.1), ih h.2]

/-- A `/` parts steps. -/
theorem splitSteps_append (first second : List Char) :
    splitSteps (first ++ '/' :: second) = splitSteps first ++ splitSteps second := by
  induction first with
  | nil => rfl
  | cons c rest ih =>
    by_cases hc : c = '/'
    · subst hc
      show [] :: splitSteps (rest ++ '/' :: second) = _
      rw [ih]
      rfl
    · rw [List.cons_append, splitSteps.eq_3 _ _ hc, splitSteps.eq_3 _ _ hc, ih]
      cases hrest : splitSteps rest with
      | nil => exact absurd hrest (splitSteps_ne_nil rest)
      | cons step steps => rfl

/-- **An extended path has one step more**, the one that was taken. -/
theorem steps_extend {path : List Char} {steps : List (List Char)} (h : steps? path = some steps)
    (step : List Char) : steps? (extend path step) = some (steps ++ [step]) := by
  have hone := splitSteps_one (slash_not_mem_escape step)
  unfold steps? at h
  split at h
  · obtain rfl : [] = steps := Option.some.inj h
    simp only [extend, List.nil_append, steps?, hone, List.map_cons, List.map_nil, unescape_escape]
  · next rest =>
    obtain rfl : (splitSteps rest).map unescape = steps := Option.some.inj h
    simp only [extend, List.cons_append, steps?, splitSteps_append, hone, List.map_append,
      List.map_cons, List.map_nil, unescape_escape]
  · cases h

/-! ## Positions are read back -/

/-- Only zero is written with a zero in front. -/
theorem toDigits_head {n : Nat} (h : n ≠ 0) : ∀ rest, Nat.toDigits 10 n ≠ '0' :: rest := by
  induction n using Nat.strongRecOn with
  | ind n ih =>
    intro rest heq
    by_cases hlt : n < 10
    · rw [Nat.toDigits_of_lt_base hlt] at heq
      exact h (Nat.digitChar_eq_zero.mp (List.cons.inj heq).1)
    · have hle : 10 ≤ n := Nat.le_of_not_lt hlt
      rw [Nat.toDigits_of_base_le (by decide) hle] at heq
      have hquotient : n / 10 ≠ 0 := by omega
      cases hdigits : Nat.toDigits 10 (n / 10) with
      | nil => exact Nat.toDigits_ne_nil hdigits
      | cons c more =>
        rw [hdigits, List.cons_append] at heq
        exact ih (n / 10) (by omega) hquotient more ((List.cons.inj heq).1 ▸ hdigits)

theorem index_toString (i : Nat) : index? (toString i).toList = some i := by
  have htext : (toString i).toList = Nat.toDigits 10 i := Nat.toList_repr
  rw [htext]
  by_cases hi : i = 0
  · subst hi
    rfl
  have hhead := toDigits_head hi
  have hdigit : ∀ c ∈ Nat.toDigits 10 i, c.isDigit = true :=
    fun c hc => Nat.isDigit_of_mem_toDigits (by decide) (by decide) hc
  have hvalue : Nat.ofDigitChars 10 (Nat.toDigits 10 i) 0 = i := Nat.ofDigitChars_ten_toDigits
  rw [Nat.ofDigitChars_eq_foldl] at hvalue
  revert hhead hdigit hvalue
  generalize Nat.toDigits 10 i = digits
  intro hhead hdigit hvalue
  unfold index?
  split
  · exact absurd hvalue (Ne.symm hi)
  · exact absurd rfl (hhead [])
  · exact absurd rfl (hhead _)
  · have hall : (digits.all fun c => '0' ≤ c && c ≤ '9') = true := by
      rw [List.all_eq_true]
      intro c hc
      simpa [Char.isDigit, Char.le_def] using hdigit c hc
    rw [if_pos hall]
    simpa only [Nat.mul_comm] using congrArg some hvalue

/-! ## Following -/

theorem follow_append (first second : List (List Char)) (node : Json) :
    follow? (first ++ second) node = follow? first node >>= follow? second := by
  induction first generalizing node with
  | nil => rfl
  | cons step rest ih =>
    show child? step node >>= follow? (rest ++ second) = (child? step node >>= follow? rest) >>= _
    rw [bind_assoc]
    exact congrArg _ (funext ih)

/-- **An extended path leads one step further.** -/
theorem resolve_extend {path : List Char} {document node : Json}
    (h : resolve? path document = some node) (step : List Char) :
    resolve? (extend path step) document = child? step node := by
  obtain ⟨steps, hsteps, hfollow⟩ := Option.bind_eq_some_iff.mp h
  show steps? (extend path step) >>= _ = _
  rw [steps_extend hsteps]
  show follow? (steps ++ [step]) document = _
  rw [follow_append, hfollow]
  show child? step node >>= pure = _
  exact bind_pure _

end LiveTemplate.Pointer
