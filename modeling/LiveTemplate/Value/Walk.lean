import LiveTemplate.Value.Snapshot
/-!
# Walking through a value

A walk visits a value and then, for arrays, maps and nodes, its children from the first to the
last, each with all that is below it.  The visitor keeps a state and may end the walk after any
visit; nothing is visited after that.

A visitor that has to be given the values themselves walks through them as they are (`traverse`).
One that asks only for what the snapshot of a value has too walks through the snapshot (`walk`), which
always ends.

Three questions are answered by a walk or by the same recursion: which values are reached,
whether one of them is computed by evaluation, and which names an expression looks up.  A value
is pure when no impure function can be reached in it.
-/

set_option autoImplicit false

namespace LiveTemplate.Value

mutual
/-- Visit an expanded value and what is below it until the state is final. -/
def walkExpanded {σ : Type} (visit : σ → Value → σ) (isFinal : σ → Bool) (state : σ) : Value → σ
  | .array ref items =>
    let state := visit state (.array ref items)
    if isFinal state then state else walkItems visit isFinal state items
  | .map ref entries =>
    let state := visit state (.map ref entries)
    if isFinal state then state else walkEntries visit isFinal state entries
  | .node ref op operands =>
    let state := visit state (.node ref op operands)
    if isFinal state then state else walkItems visit isFinal state operands
  | v => visit state v

/-- Walk through the elements of a list. -/
def walkItems {σ : Type} (visit : σ → Value → σ) (isFinal : σ → Bool) (state : σ) :
    List Value → σ
  | [] => state
  | v :: rest =>
    let state := walkExpanded visit isFinal state v
    if isFinal state then state else walkItems visit isFinal state rest

/-- Walk through the values of a list of entries. -/
def walkEntries {σ : Type} (visit : σ → Value → σ) (isFinal : σ → Bool) (state : σ) :
    List (String × Value) → σ
  | [] => state
  | (_, v) :: rest =>
    let state := walkExpanded visit isFinal state v
    if isFinal state then state else walkEntries visit isFinal state rest
end

/-- Visit a value and what is below it until the state is final. -/
def walk {σ : Type} (store : Store) (visit : σ → Value → σ) (isFinal : σ → Bool) (state : σ)
    (v : Value) : σ :=
  walkExpanded visit isFinal state (v.expanded store)

/-- Does the value reach one that is computed by evaluation? -/
def reachesEvaluable (store : Store) (v : Value) : Bool :=
  v.walk store (fun found x => found || x.isEvaluable) id false

/-- The names that the symbols in a value look up, sorted. -/
def symbols (store : Store) (v : Value) : List String :=
  v.walk store (fun names x =>
    match x.symbolName? with
    | some name => Store.insertName name names
    | none => names) (fun _ => false) []

/-- What a walk goes on to from a value: the operands of a node, the elements of an array, the values of a
map in the order of their keys. -/
def children (store : Store) : Value → List Value
  | .node _ _ operands => operands
  | .context .. => []
  | v => v.items store ++ (v.entries store).map fun entry => entry.2

/-- Visit a value and what is below it until the state is final.  The visitor is given the values
themselves, and a container that holds itself is entered again and again: if the state never is final,
such a walk does not end. -/
def traverse {σ : Type} (store : Store) (visit : σ → Value → σ) (isFinal : σ → Bool) (state : σ)
    (v : Value) : Option σ := do
  let mut state := visit state v
  if isFinal state then
    return state
  for child in v.children store do
    state ← child |>.traverse store visit isFinal state
    if isFinal state then
      break
  return state
partial_fixpoint

/-- The first values that a walk visits, at most as many as the limit but at least one. -/
def visited (store : Store) (limit : Nat) (v : Value) : List Value :=
  match v.traverse store (fun seen x => x :: seen) (fun seen => seen.length ≥ limit) [] with
  | some seen => seen.reverse
  | none => []

mutual
/-- Does an expanded value reach no impure function? -/
def isPureExpanded : Value → Bool
  | .function _ builtin => builtin.isPure
  | .array _ items => allPure items
  | .map _ entries => allPureEntries entries
  | .node _ _ operands => allPure operands
  | _ => true

/-- Are all elements pure? -/
def allPure : List Value → Bool
  | [] => true
  | v :: rest => isPureExpanded v && allPure rest

/-- Are all values of the entries pure? -/
def allPureEntries : List (String × Value) → Bool
  | [] => true
  | (_, v) :: rest => isPureExpanded v && allPureEntries rest
end

/-- Does the value reach no impure function? -/
def isPure (store : Store) (v : Value) : Bool := isPureExpanded (v.expanded store)

end LiveTemplate.Value
