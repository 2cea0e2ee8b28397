import LiveTemplate.Proofs.Syntax.Term
/-!
# A reference interpreter

An interpreter that walks through a syntax tree and knows nothing of computing ahead.  It goes from
the left to the right: both operands before an operator, the callee before the arguments and these
before the call.  Where one operand decides about another, the other one is run only if it is asked
for, and of the branches of a choice only one is.  Names are looked up in the scope when they are
met.

The term of a tree has an interpreter as well, which leaves it to the operators to run their
operands; it is the same one.
-/

set_option autoImplicit false

namespace LiveTemplate

/-- The value of an operand: of a name what the scope sees under it. -/
def Leaf.interpret (store : Store) (scope : ScopeId) : Leaf → Run Value
  | .name symbol => pure (store.get scope symbol)
  | operand => Template.ofLeaf store scope operand

/-- Run the operands from left to right, and apply the operator to their values.  A wrong number of
operands is null, and none of them is run. -/
def Operator.applyRun (store : Store) (op : Operator) (operands : List (Run Value)) : Run Value :=
  if op.arity.accepts operands.length then do op.applyStrict store (← Operator.runAll operands)
  else pure .null

namespace Tree

mutual
/-- The value of a tree as an interpreter finds it. -/
def interpret (store : Store) (scope : ScopeId) : Tree → Run Value
  | .leaf operand => operand.interpret store scope
  | .binding content => interpret store scope content
  | .text segments => do return Value.mergeAll (← interpretAll store scope segments)
  | .group content => interpret store scope content
  | .array items => do Run.array (← interpretAll store scope items)
  | .map entries => do
    let flat ← Run.array (← interpretEntries store scope entries)
    Run.map (Json.sortFields (Operator.pairUp (flat.items store)))
  | .field container name => do
    let container ← interpret store scope container
    return container.selectField store (.text name)
  | .index container key => do
    let container ← interpret store scope container
    let key ← interpret store scope key
    return container.selectIndex store key
  | .call callee arguments => do
    let callee ← interpret store scope callee
    let arguments ← Run.array (← interpretAll store scope arguments)
    callee.call store (arguments.items store)
  | .sign op operand => op.applyRun store [interpret store scope operand]
  | .binary .and left right => do
    let value ← interpret store scope left
    if value.truthy then interpret store scope right else pure value
  | .binary .or left right => do
    let value ← interpret store scope left
    if value.truthy then pure value else interpret store scope right
  | .binary .coalesce left right => do
    match ← interpret store scope left with
    | .null => interpret store scope right
    | value => pure value
  | .binary op left right =>
    op.applyRun store [interpret store scope left, interpret store scope right]
  | .choice condition whenTrue whenFalse => do
    if (← interpret store scope condition).truthy then interpret store scope whenTrue
    else interpret store scope whenFalse

/-- The values of trees, the first one first. -/
def interpretAll (store : Store) (scope : ScopeId) : List Tree → Run (List Value)
  | [] => pure []
  | tree :: rest => do
    let value ← interpret store scope tree
    return value :: (← interpretAll store scope rest)

/-- The values of keys and the values that belong to them, in turn. -/
def interpretEntries (store : Store) (scope : ScopeId) : List (Tree × Tree) → Run (List Value)
  | [] => pure []
  | (key, tree) :: rest => do
    let key ← interpret store scope key
    let value ← interpret store scope tree
    return key :: value :: (← interpretEntries store scope rest)
end

end Tree

namespace Term

mutual
/-- The value of a term, whose operators run what they need. -/
def interpret (store : Store) (scope : ScopeId) : Term → Run Value
  | .leaf operand => operand.interpret store scope
  | .given value => pure value
  | .apply op operands => op.applyTo store (interpretAll store scope operands)

/-- The computations of the values of terms. -/
def interpretAll (store : Store) (scope : ScopeId) : List Term → List (Run Value)
  | [] => []
  | term :: rest => interpret store scope term :: interpretAll store scope rest
end

variable {store : Store} {scope : ScopeId}

theorem interpretAll_eq_map (terms : List Term) :
    interpretAll store scope terms = terms.map (interpret store scope) := by
  induction terms with
  | nil => rfl
  | cons term rest ih => rw [interpretAll, ih, List.map_cons]

theorem interpret_joined (segments : List Term) :
    (joined segments).interpret store scope
      = do return Value.mergeAll (← Operator.runAll (interpretAll store scope segments)) := by
  rcases segments with _ | ⟨first, _ | ⟨second, rest⟩⟩
  · rfl
  · simp [joined, interpretAll, Operator.runAll, Value.mergeAll]
  · rfl

end Term

section

variable {store : Store} {scope : ScopeId}

mutual
/-- **A tree and its term are interpreted alike.** -/
theorem Tree.interpret_term (tree : Tree) :
    tree.term.interpret store scope = tree.interpret store scope := by
  match tree with
  | .leaf operand => rfl
  | .binding content => exact Tree.interpret_term content
  | .group content => exact Tree.interpret_term content
  | .text segments =>
    rw [Tree.term, Term.interpret_joined, Tree.interpretAll_terms segments, Tree.interpret]
  | .array items =>
    show (Operator.runAll _ >>= Operator.applyStrict store .array) = _
    rw [Tree.interpretAll_terms items]
    rfl
  | .map entries =>
    show (Operator.runAll [Operator.runAll _ >>= Operator.applyStrict store .array] >>=
      Operator.applyStrict store .map) = _
    rw [Tree.interpretAll_entryTerms entries]
    simp [Operator.runAll, Operator.applyStrict, Run.array, Tree.interpret, Value.kind]
  | .field container name =>
    show (Operator.runAll [container.term.interpret store scope, pure (.text name)] >>=
      Operator.applyStrict store .field) = _
    simp [Operator.runAll, Operator.applyStrict, Tree.interpret, Tree.interpret_term container]
  | .index container key =>
    show (Operator.runAll [container.term.interpret store scope, key.term.interpret store scope] >>=
      Operator.applyStrict store .index) = _
    simp [Operator.runAll, Operator.applyStrict, Tree.interpret, Tree.interpret_term container,
      Tree.interpret_term key]
  | .call callee arguments =>
    show (Operator.runAll [callee.term.interpret store scope,
      Operator.runAll _ >>= Operator.applyStrict store .array] >>=
        Operator.applyStrict store .call) = _
    rw [Tree.interpretAll_terms arguments]
    simp [Operator.runAll, Operator.applyStrict, Run.array, Tree.interpret, Value.kind,
      Tree.interpret_term callee]
  | .sign op operand =>
    show op.applyTo store [_] = _
    rw [Tree.interpret_term operand]
    cases op <;> rfl
  | .binary op left right =>
    show op.applyTo store [_, _] = _
    rw [Tree.interpret_term left, Tree.interpret_term right]
    cases op <;> rfl
  | .choice condition whenTrue whenFalse =>
    show Operator.applyTo store .choose [_, _, _] = _
    rw [Tree.interpret_term condition, Tree.interpret_term whenTrue, Tree.interpret_term whenFalse]
    rfl

theorem Tree.interpretAll_terms (trees : List Tree) :
    Operator.runAll (Term.interpretAll store scope (Tree.terms trees))
      = Tree.interpretAll store scope trees := by
  match trees with
  | [] => rfl
  | tree :: rest =>
    rw [Tree.terms, Term.interpretAll, Operator.runAll, Tree.interpret_term tree,
      Tree.interpretAll_terms rest, Tree.interpretAll]

theorem Tree.interpretAll_entryTerms (entries : List (Tree × Tree)) :
    Operator.runAll (Term.interpretAll store scope (Tree.entryTerms entries))
      = Tree.interpretEntries store scope entries := by
  match entries with
  | [] => rfl
  | (key, value) :: rest =>
    simp only [Tree.entryTerms, Term.interpretAll, Operator.runAll, Tree.interpret_term key,
      Tree.interpret_term value, Tree.interpretAll_entryTerms rest, Tree.interpretEntries,
      bind_assoc, pure_bind]
end

end

end LiveTemplate
