import LiveTemplate.Proofs.Syntax.Running
import LiveTemplate.Proofs.Template.Reading
/-!
# A text without expressions

`Template.read` does not let the grammar see a text in which no expression starts: such a text is
itself.  Here this shortcut is shown to change nothing.  The grammar reads the text as one piece of
literal text, or as none if it is empty, and either way it is the text that comes out.
-/

set_option autoImplicit false

namespace LiveTemplate.Template

variable {store : Store} {scope : ScopeId} {source : String} {tree : Tree}

theorem literalText_of_not_marker {text : List Char} (h : hasMarker text = false) :
    Grammar.literalText none text = (text, []) := by
  fun_induction hasMarker text with
  | case1 => cases h
  | case2 c rest hmarker ih =>
    rw [Grammar.literalText]
    · simp [ih h]
    · exact hmarker
  | case3 => rfl

theorem literal_of_not_marker {text : List Char} (h : hasMarker text = false) :
    Grammar.literal? ['$', '\x7b'] text = none := by
  rcases text with _ | ⟨c, _ | ⟨d, rest⟩⟩
  · rfl
  · simp [Grammar.literal?]
  · by_cases hmarker : c = '$' ∧ d = '\x7b'
    · obtain ⟨rfl, rfl⟩ := hmarker
      cases h
    · simp only [not_and] at hmarker
      simp only [Grammar.literal?, beq_iff_eq]
      split
      · next hc => rw [if_neg fun hd => hmarker hc.symm hd.symm]
      · rfl

/-- A text without expressions has one segment at most. -/
theorem read_literal {text : List Char} (h : hasMarker text = false) :
    TreeGrammar.read text =
      .ok (.text (if text = [] then [] else [.leaf (.text (String.ofList text))])) := by
  let rule := Grammar.Rule.orElse (TreeGrammar.binding (TreeGrammar.expression Grammar.depthLimit))
    (TreeGrammar.rawText none)
  have hend : Grammar.Declines rule [] :=
    Grammar.Declines.both (.bind (.scan rfl)) (.bind (.scan rfl))
  have hall : Grammar.Repeats rule text
      (if text = [] then [] else [.leaf (.text (String.ofList text))]) [] := by
    rcases text with _ | ⟨c, rest⟩
    · exact .nil []
    · have hscan : Grammar.literalText? none (c :: rest) = some (c :: rest, []) := by
        rw [Grammar.literalText?, literalText_of_not_marker h]
      have hraw : Grammar.Parses (TreeGrammar.rawText none) (c :: rest)
          (.leaf (.text (String.ofList (c :: rest)))) [] := (Grammar.Parses.scan hscan).bind (.pure _ _)
      have hnone : Grammar.Declines (TreeGrammar.binding (TreeGrammar.expression Grammar.depthLimit))
          (c :: rest) := .bind (.scan (literal_of_not_marker h))
      exact .cons (hnone.orElse hraw) (by simp) (.nil [])
  have htemplate : TreeGrammar.template text = .done _ [] [] := hall.collect hend
  rw [TreeGrammar.read, htemplate]

/-- A text without expressions is read as it stands. -/
theorem gives_literal (h : isTemplate source = false)
    (hread : TreeGrammar.read source.toList = .ok tree) {v : Value}
    (hv : tree.term.Gives store scope v) : v = .text source := by
  obtain rfl : tree = _ := Except.ok.inj (hread.symm.trans (read_literal h))
  by_cases hempty : source.toList = []
  · rw [if_pos hempty] at hv
    obtain ⟨e, e', hr⟩ := hv
    cases hr
    rw [← source.ofList_toList, hempty]
  · rw [if_neg hempty] at hv
    obtain ⟨e, e', hr⟩ := hv
    cases hr
    rw [source.ofList_toList]

/-- The only step that such a text takes is to push it. -/
theorem steps_literal {text : List Char} (h : hasMarker text = false) :
    Grammar.read text = (if text = [] then [] else [.push (.text (String.ofList text))], none) := by
  have htemplate : Grammar.template text
      = .done () [] (if text = [] then [] else [.push (.text (String.ofList text))]) := by
    cases text with
    | nil => rfl
    | cons c rest =>
      have hnone : Grammar.binding (Grammar.expression Grammar.depthLimit) (c :: rest) = .declined [] := by
        show Grammar.Rule.bind (Grammar.Rule.scan _) _ _ = _
        simp only [Grammar.Rule.bind, Grammar.Rule.scan, literal_of_not_marker h]
      have hraw : Grammar.rawText none (c :: rest)
          = .done () [] [.push (.text (String.ofList (c :: rest)))] := by
        show Grammar.Rule.bind (Grammar.Rule.scan _) _ _ = _
        simp only [Grammar.Rule.bind, Grammar.Rule.scan, Grammar.literalText?,
          literalText_of_not_marker h]
        rfl
      show Grammar.Rule.repeatWithin _ (c :: rest) (c :: rest) = _
      simp only [Grammar.Rule.repeatWithin, Grammar.Rule.orElse, hnone, hraw]
      cases rest <;> rfl
  rw [Grammar.read, htemplate]

/-- **A text without expressions is read to itself.** -/
theorem parse_literal (h : isTemplate source = false) :
    parse store scope source = pure (.ok (.text source)) := by
  unfold parse
  rw [steps_literal h]
  by_cases hempty : source.toList = []
  · rw [← source.ofList_toList, hempty]
    rfl
  · rw [if_neg hempty, source.ofList_toList]
    rfl

/-- The shortcut changes nothing. -/
theorem read_eq_parse (store : Store) (scope : ScopeId) (source : String) :
    read store scope source = parse store scope source := by
  unfold read
  split
  · rfl
  · next h => exact (parse_literal (Bool.not_eq_true _ ▸ h)).symm

end LiveTemplate.Template
