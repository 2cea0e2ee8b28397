import LiveTemplate.Proofs.Syntax.Meaning
/-!
# What a written term gives

The term of a tree is written: its leaves are operands, and none of them is a value that was there
before.  So what is to be shown of the values that such a term gives is shown of the values of
operands, and then of whatever the builder makes of values of which it was shown already.  The
names of a term, those that its operands mention, are the first thing that is followed in this way.
-/

set_option autoImplicit false

namespace LiveTemplate

/-- Every leaf of the term is an operand. -/
inductive Term.Written : Term → Prop
  | leaf (operand : Leaf) : Written (.leaf operand)
  | apply {op : Operator} {operands : List Term} :
      (∀ term ∈ operands, Written term) → Written (.apply op operands)

theorem Term.Written.joined {segments : List Term} (h : ∀ term ∈ segments, Term.Written term) :
    (Term.joined segments).Written := by
  rcases segments with _ | ⟨first, _ | ⟨second, rest⟩⟩
  · exact .leaf _
  · exact h first List.mem_cons_self
  · exact .apply h

mutual
theorem Tree.term_written (tree : Tree) : tree.term.Written := by
  have one {a : Term} (ha : a.Written) : ∀ term ∈ [a], term.Written := by simpa using ha
  have two {a b : Term} (ha : a.Written) (hb : b.Written) : ∀ term ∈ [a, b], term.Written := by
    simpa using ⟨ha, hb⟩
  match tree with
  | .leaf operand => exact .leaf operand
  | .binding content => exact Tree.term_written content
  | .group content => exact Tree.term_written content
  | .text segments => exact .joined (Tree.terms_written segments)
  | .array items => exact .apply (Tree.terms_written items)
  | .map entries => exact .apply (one (.apply (Tree.entryTerms_written entries)))
  | .field container name => exact .apply (two (Tree.term_written container) (.leaf _))
  | .index container key =>
    exact .apply (two (Tree.term_written container) (Tree.term_written key))
  | .call callee arguments =>
    exact .apply (two (Tree.term_written callee) (.apply (Tree.terms_written arguments)))
  | .sign op operand => exact .apply (one (Tree.term_written operand))
  | .binary op left right =>
    exact .apply (two (Tree.term_written left) (Tree.term_written right))
  | .choice condition whenTrue whenFalse =>
    refine .apply ?_
    simpa using ⟨Tree.term_written condition, Tree.term_written whenTrue, Tree.term_written whenFalse⟩

theorem Tree.terms_written (trees : List Tree) : ∀ term ∈ Tree.terms trees, term.Written := by
  match trees with
  | [] => simp [Tree.terms]
  | tree :: rest => simpa [Tree.terms] using ⟨Tree.term_written tree, Tree.terms_written rest⟩

theorem Tree.entryTerms_written (entries : List (Tree × Tree)) :
    ∀ term ∈ Tree.entryTerms entries, term.Written := by
  match entries with
  | [] => simp [Tree.entryTerms]
  | (key, value) :: rest =>
    simpa [Tree.entryTerms] using
      ⟨Tree.term_written key, Tree.term_written value, Tree.entryTerms_written rest⟩
end

/-- What relates two lists may be replaced where it implies something else of the members. -/
theorem forall₂_imp_of_mem {α β : Type} {R S : α → β → Prop} {xs : List α} {ys : List β}
    (h : List.Forall₂ R xs ys) (k : ∀ y ∈ ys, ∀ x, R x y → S x y) : List.Forall₂ S xs ys := by
  induction h with
  | nil => exact .nil
  | cons hxy _ ih =>
    exact .cons (k _ List.mem_cons_self _ hxy) (ih fun y hy => k y (List.mem_cons_of_mem _ hy))

/-- Induction on how a written term gives a value. -/
theorem Term.Written.gives_induction {store : Store} {scope : ScopeId} {P : Term → Value → Prop}
    (leaf : ∀ operand v, (Term.leaf operand).Gives store scope v → P (.leaf operand) v)
    (apply : ∀ op operands vs v e e', List.Forall₂ (fun v term => P term v) vs operands →
      (op.build store vs).run e = (.ok v, e') → P (.apply op operands) v)
    {term : Term} (h : term.Written) : ∀ v, term.Gives store scope v → P term v := by
  induction h with
  | leaf operand => exact leaf operand
  | @apply op operands _ ih =>
    rintro v ⟨vs, hvs, e, e', hr⟩
    exact apply op operands vs v e e' (forall₂_imp_of_mem (Term.givesAll_iff.mp hvs) ih) hr

/-! ## Names -/

mutual
/-- The names that a term mentions. -/
def Term.names : Term → List String
  | .leaf (.name name) => [name]
  | .leaf _ => []
  | .given _ => []
  | .apply _ operands => Term.namesAll operands

/-- The names that terms mention. -/
def Term.namesAll : List Term → List String
  | [] => []
  | term :: rest => term.names ++ Term.namesAll rest
end

mutual
/-- The names that a tree mentions, those of symbols and resources, wherever they stand.  A field
is no name, and neither is literal text. -/
def Tree.names : Tree → List String
  | .leaf (.name name) => [name]
  | .leaf _ => []
  | .binding content => content.names
  | .text segments => Tree.namesAll segments
  | .group content => content.names
  | .array items => Tree.namesAll items
  | .map entries => Tree.namesOfEntries entries
  | .field container _ => container.names
  | .index container key => container.names ++ key.names
  | .call callee arguments => callee.names ++ Tree.namesAll arguments
  | .sign _ operand => operand.names
  | .binary _ left right => left.names ++ right.names
  | .choice condition whenTrue whenFalse => condition.names ++ (whenTrue.names ++ whenFalse.names)

/-- The names that trees mention. -/
def Tree.namesAll : List Tree → List String
  | [] => []
  | tree :: rest => tree.names ++ Tree.namesAll rest

/-- The names that keys and values mention. -/
def Tree.namesOfEntries : List (Tree × Tree) → List String
  | [] => []
  | (key, value) :: rest => key.names ++ (value.names ++ Tree.namesOfEntries rest)
end

theorem Term.mem_namesAll {name : String} {terms : List Term} :
    name ∈ Term.namesAll terms ↔ ∃ term ∈ terms, name ∈ term.names := by
  induction terms with
  | nil => simp [Term.namesAll]
  | cons term rest ih => simp [Term.namesAll, ih]

theorem Term.names_joined (segments : List Term) :
    (Term.joined segments).names = Term.namesAll segments := by
  rcases segments with _ | ⟨first, _ | ⟨second, rest⟩⟩
  · rfl
  · simp [Term.joined, Term.namesAll]
  · rfl

mutual
/-- The term of a tree mentions what the tree mentions. -/
theorem Tree.names_term (tree : Tree) : tree.term.names = tree.names := by
  match tree with
  | .leaf operand => cases operand <;> rfl
  | .binding content => exact Tree.names_term content
  | .group content => exact Tree.names_term content
  | .text segments => exact (Term.names_joined _).trans (Tree.namesAll_terms segments)
  | .array items => exact Tree.namesAll_terms items
  | .map entries =>
    simp [Tree.term, Term.names, Term.namesAll, Tree.names, Tree.namesAll_entryTerms entries]
  | .field container name =>
    simp [Tree.term, Term.names, Term.namesAll, Tree.names, Tree.names_term container]
  | .index container key =>
    simp [Tree.term, Term.names, Term.namesAll, Tree.names, Tree.names_term container,
      Tree.names_term key]
  | .call callee arguments =>
    simp [Tree.term, Term.names, Term.namesAll, Tree.names, Tree.names_term callee,
      Tree.namesAll_terms arguments]
  | .sign op operand =>
    simp [Tree.term, Term.names, Term.namesAll, Tree.names, Tree.names_term operand]
  | .binary op left right =>
    simp [Tree.term, Term.names, Term.namesAll, Tree.names, Tree.names_term left,
      Tree.names_term right]
  | .choice condition whenTrue whenFalse =>
    simp [Tree.term, Term.names, Term.namesAll, Tree.names, Tree.names_term condition,
      Tree.names_term whenTrue, Tree.names_term whenFalse]

theorem Tree.namesAll_terms (trees : List Tree) :
    Term.namesAll (Tree.terms trees) = Tree.namesAll trees := by
  match trees with
  | [] => rfl
  | tree :: rest =>
    rw [Tree.terms, Term.namesAll, Tree.names_term tree, Tree.namesAll_terms rest, Tree.namesAll]

theorem Tree.namesAll_entryTerms (entries : List (Tree × Tree)) :
    Term.namesAll (Tree.entryTerms entries) = Tree.namesOfEntries entries := by
  match entries with
  | [] => rfl
  | (key, value) :: rest =>
    rw [Tree.entryTerms, Term.namesAll, Term.namesAll, Tree.names_term key, Tree.names_term value,
      Tree.namesAll_entryTerms rest, Tree.namesOfEntries]
end

end LiveTemplate
