import LiveTemplate.Proofs.Syntax.Limit
import LiveTemplate.Proofs.Template.Success
/-!
# The limit of the nesting is exact

A template that is a spelling of the grammar is rejected for one reason only, and exactly if too many
expressions are tried inside one another.  These are the expressions that stand inside one another, but
that an empty list, an empty list of arguments and an empty binding count one, although they hold
none.  So a template may be rejected whose expressions keep to the limit, if they reach it and there is
such an empty place inside the innermost one; an empty map, where no expression is tried, makes no
difference.
-/

set_option autoImplicit false

namespace LiveTemplate.Template

open Run (Ends)

variable {pieces : List Tree} {source : String}

/-- What is known of the reading of a template before it is read against a scope. -/
theorem read_template (h : Tree.IsTemplate pieces source.toList) :
    Tree.nestingAll 1 pieces ≤ Grammar.depthLimit ∧
      TreeGrammar.read source.toList = .ok (.text pieces) ∨
    Grammar.depthLimit < Tree.nestingAll 1 pieces ∧
      ∃ rest, TreeGrammar.read source.toList = .error (.tooDeep, rest) := by
  obtain hdepth | hdeep := Nat.lt_or_ge Grammar.depthLimit (Tree.nestingAll 1 pieces)
  · exact .inr ⟨hdepth, TreeGrammar.read_tooDeep h hdepth⟩
  · exact .inl ⟨hdeep, TreeGrammar.read_ok_iff.mpr ⟨pieces, rfl, h, hdeep⟩⟩

/-- **The limit of the nesting is exact.**  Take a template as the grammar spells it.  It is rejected
because the nesting is too deep if and only if more expressions are tried inside one another than the
limit.  Otherwise it is accepted, and read to a value of its pieces.  Only that the day count of a date
overflows can come before either.  The expressions that are tried are those that stand inside one
another, or one more. -/
theorem parse_limit (h : Tree.IsTemplate pieces source.toList) (store : Store) (scope : ScopeId) :
    Ends (fun result =>
      ((∃ mistake, result = .error mistake ∧ mistake.cause = .tooDeep) ↔
        Grammar.depthLimit < Tree.nestingAll 1 pieces) ∧
      (Tree.nestingAll 1 pieces ≤ Grammar.depthLimit →
        ∃ v, result = .ok v ∧ (Tree.text pieces).term.Gives store scope v)) Fault.IsOverflow
      (parse store scope source) ∧
    Tree.deepest pieces ≤ Tree.nestingAll 1 pieces ∧
    Tree.nestingAll 1 pieces ≤ Tree.deepest pieces + 1 := by
  refine ⟨?_, Tree.nestingAll_bounds 1 pieces⟩
  refine (parse_ends store scope source).mono (fun result hresult => ?_) fun _ hfault => hfault
  obtain ⟨hdepth, hread⟩ | ⟨hdeep, rest, hread⟩ := read_template h
  · cases result with
    | error mistake =>
      obtain ⟨cause, rest, hcause, -⟩ := hresult
      rw [hread] at hcause
      cases hcause
    | ok v =>
      obtain ⟨tree, htree, hgives⟩ := hresult
      rw [hread] at htree
      cases htree
      exact ⟨by simpa using hdepth, fun _ => ⟨v, rfl, hgives⟩⟩
  · cases result with
    | error mistake =>
      obtain ⟨cause, rest', hcause, rfl⟩ := hresult
      rw [hread] at hcause
      cases hcause
      exact ⟨iff_of_true ⟨_, rfl, rfl⟩ hdeep, fun hdepth => absurd hdeep (Nat.not_lt.mpr hdepth)⟩
    | ok v =>
      obtain ⟨tree, htree, -⟩ := hresult
      rw [hread] at htree
      cases htree

/-- An empty list in a number of groups. -/
def grouped : Nat → Tree
  | 0 => .array []
  | count + 1 => .group (grouped count)

/-- The text of an empty list in a number of groups. -/
def groupedText : Nat → List Char
  | 0 => ['[', ']']
  | count + 1 => '(' :: (groupedText count ++ [')'])

theorem grouped_spelled (count : Nat) :
    (grouped count).Spelled (groupedText count) ∧ (grouped count).Fits := by
  have hnone : IsBlanks [] := by simp [IsBlanks]
  induction count with
  | zero => exact ⟨⟨[], [], [], hnone, ⟨[], rfl, rfl⟩, hnone, rfl⟩, trivial⟩
  | succ count ih => exact ⟨⟨[], groupedText count, [], hnone, ih.1, hnone, rfl⟩, ih.2⟩

theorem grouped_template (count : Nat) :
    Tree.IsTemplate [.binding (grouped count)] ('$' :: '\x7b' :: (groupedText count ++ ['\x7d'])) := by
  have hnone : IsBlanks [] := by simp [IsBlanks]
  obtain ⟨hspelled, hfits⟩ := grouped_spelled count
  refine ⟨⟨_, [], ⟨[], groupedText count, [], hnone, .inl hspelled, hnone, rfl⟩, rfl, ?_, ?_⟩, hfits, trivial⟩
  · simp [Tree.isLiteral]
  · simp

theorem parse_limit_of_empty_list :
    Tree.deepest [.binding (grouped 63)] = Grammar.depthLimit ∧
    Ends (fun result => ∃ mistake, result = .error mistake ∧ mistake.cause = .tooDeep) Fault.IsOverflow
      (parse Store.empty 0 (String.ofList ('$' :: '\x7b' :: (groupedText 63 ++ ['\x7d'])))) := by
  refine ⟨rfl, ?_⟩
  have htemplate := grouped_template 63
  have hdeep : Grammar.depthLimit < Tree.nestingAll 1 [.binding (grouped 63)] := by decide
  -- the text is not to be computed
  generalize '$' :: '\x7b' :: (groupedText 63 ++ ['\x7d']) = text at htemplate
  rw [← String.toList_ofList (l := text)] at htemplate
  obtain ⟨hends, -, -⟩ := parse_limit htemplate Store.empty 0
  exact hends.mono (fun _ hresult => hresult.1.mpr hdeep) fun _ hfault => hfault

end LiveTemplate.Template
