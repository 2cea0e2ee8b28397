import LiveTemplate.Proofs.Value.Comparison
import LiveTemplate.Value.Walk
/-!
# The order of a walk

A walk visits a value before what is below it, and what is below it from the first part to the last: the
operands of a node, the elements of an array, the values of a map by ascending key.  `PreOrder` lists the
values in this order, without a visitor.  The list is finite if the value is `Built`, that is, unless a
container that can be edited was put into itself.

The visitor may end the walk after any visit, and then each loop that was entered on the way has to end
too.  That they all do is said in one word: the walk does what `visitAll` does with the list, which has no
nesting left, and stops at the first place where the state is final.
-/

set_option autoImplicit false

namespace LiveTemplate.Value

/-! ## What is below a value -/

/-- The parts of a value, in order.  A map gives them by key, and only these three kinds have parts. -/
def parts (store : Store) (v : Value) : List Value :=
  match v with
  | .node _ _ operands => operands
  | v => match v.kind with
    | .array => v.items store
    | .map => (v.keys store).map fun key => v.field store key
    | _ => []

/-- The value is built from parts that are built, and its keys are in order if it is a map. -/
inductive Built (store : Store) : Value → Prop where
  | intro {v : Value} : (v.kind = .map → (v.keys store).Pairwise (· < ·)) →
    (∀ w ∈ v.parts store, Built store w) → Built store v

/-- The values are followed, each by all that is below it, in the order of the list. -/
inductive PreOrder (store : Store) : List Value → List Value → Prop where
  | nil : PreOrder store [] []
  | cons {v : Value} {rest inner later : List Value} : PreOrder store (v.parts store) inner →
    PreOrder store rest later → PreOrder store (v :: rest) (v :: (inner ++ later))

variable {store : Store} {v : Value} {values order : List Value}

theorem Built.keys (h : Built store v) : v.kind = .map → (v.keys store).Pairwise (· < ·) := by
  obtain ⟨hkeys, -⟩ := h
  exact hkeys

theorem Built.parts (h : Built store v) : ∀ w ∈ v.parts store, Built store w := by
  obtain ⟨-, hparts⟩ := h
  exact hparts

theorem exists_preOrder_of_forall (h : ∀ v ∈ values, ∃ order, PreOrder store [v] order) :
    ∃ order, PreOrder store values order := by
  induction values with
  | nil => exact ⟨[], .nil⟩
  | cons v rest ih =>
    obtain ⟨order, hv⟩ := h v List.mem_cons_self
    obtain ⟨later, hrest⟩ := ih fun w hw => h w (List.mem_cons_of_mem _ hw)
    cases hv with
    | cons hparts _ => exact ⟨_, .cons hparts hrest⟩

/-- What is built has an order. -/
theorem Built.exists_preOrder (h : Built store v) : ∃ order, PreOrder store [v] order := by
  induction h with
  | intro _ _ ih =>
    obtain ⟨inner, hparts⟩ := exists_preOrder_of_forall ih
    exact ⟨_, .cons hparts .nil⟩

theorem values_of_keys {entries : List (String × Value)}
    (hkeys : (entries.map fun entry => entry.1).Pairwise (· < ·)) :
    (entries.map fun entry => entry.1).map (fun key => (Json.lookup? key entries).getD .null)
      = entries.map fun entry => entry.2 := by
  rw [List.map_map]
  refine List.map_congr_left fun entry hentry => ?_
  show (Json.lookup? entry.1 entries).getD .null = entry.2
  rw [Json.lookup_of_distinct (hkeys.imp fun hlt => hlt.ne) hentry]
  rfl

/-- The parts of a map are the values of its entries. -/
theorem parts_of_keys (hkind : v.kind = .map) (hkeys : (v.keys store).Pairwise (· < ·)) :
    v.parts store = (v.entries store).map fun entry => entry.2 := by
  unfold parts
  split
  · cases hkind
  · rw [hkind]
    exact values_of_keys hkeys

/-- A walk goes on to the parts of the value. -/
theorem children_eq_parts (hkeys : v.kind = .map → (v.keys store).Pairwise (· < ·)) :
    v.children store = v.parts store := by
  have hmap (h : v.kind = .map) : v.parts store = (v.entries store).map fun entry => entry.2 :=
    parts_of_keys h (hkeys h)
  cases v with
  | array ref items => exact List.append_nil _
  | mutableArray ref => exact List.append_nil _
  | map ref entries => exact (hmap rfl).symm
  | mutableMap ref => exact (hmap rfl).symm
  | view ref document path =>
    cases hshown : shown document path with
    | object fields =>
      have hkind : (view ref document path).kind = .map := by simp only [kind, hshown]
      rw [hmap hkind]
      simp only [children, items, hshown, List.nil_append]
    | _ => simp [children, parts, kind, entries, hshown]
  | handle ref kind label => cases kind <;> rfl
  | styling ref value => cases value <;> rfl
  | _ => rfl

/-! ## Visiting a list -/

variable {σ : Type} {visit : σ → Value → σ} {isFinal : σ → Bool} {state : σ}

/-- Visit the values of a list until the state is final after a visit. -/
def visitAll (visit : σ → Value → σ) (isFinal : σ → Bool) (state : σ) : List Value → σ
  | [] => state
  | v :: rest =>
    let state := visit state v
    if isFinal state then state else visitAll visit isFinal state rest

theorem visitAll_append {first : List Value} (hne : first ≠ []) (second : List Value) (state : σ) :
    visitAll visit isFinal state (first ++ second)
      = if isFinal (visitAll visit isFinal state first) then visitAll visit isFinal state first
        else visitAll visit isFinal (visitAll visit isFinal state first) second := by
  induction first generalizing state with
  | nil => exact absurd rfl hne
  | cons v rest ih =>
    simp only [List.cons_append, visitAll]
    by_cases hfinal : isFinal (visit state v) = true
    · simp only [hfinal, if_true]
    · simp only [if_neg hfinal]
      cases rest with
      | nil => simp [visitAll, hfinal]
      | cons w rest => exact ih (List.cons_ne_nil _ _) _

/-- Walk through the values of a list until the state is final. -/
def traverseAll (store : Store) (visit : σ → Value → σ) (isFinal : σ → Bool) (state : σ) :
    List Value → Option σ
  | [] => some state
  | v :: rest => do
    let state ← v.traverse store visit isFinal state
    if isFinal state then some state else traverseAll store visit isFinal state rest

theorem forIn_eq_traverseAll (values : List Value) (state : σ) :
    (forIn values state fun child state => do
      let state ← child.traverse store visit isFinal state
      if isFinal state then pure (.done state) else pure (.yield state))
      = traverseAll store visit isFinal state values := by
  induction values generalizing state with
  | nil => rfl
  | cons v rest ih =>
    rw [List.forIn_cons, traverseAll, bind_assoc]
    congr 1
    funext state
    split
    · rfl
    · exact ih state

/-- A walk goes on from a value to its children, if the state is not final. -/
theorem traverse_eq (v : Value) (state : σ) : v.traverse store visit isFinal state
    = if isFinal (visit state v) then some (visit state v)
      else traverseAll store visit isFinal (visit state v) (v.children store) := by
  rw [traverse, ← forIn_eq_traverseAll]
  split
  · rfl
  · exact bind_pure _

/-- A walk through the parts makes one through the value. -/
theorem Built.traverse {inner : List Value} (h : Built store v)
    (hparts : ∀ state, traverseAll store visit isFinal state (v.parts store)
      = some (visitAll visit isFinal state inner)) (state : σ) :
    v.traverse store visit isFinal state = some (visitAll visit isFinal state (v :: inner)) := by
  rw [traverse_eq, visitAll, children_eq_parts h.keys, hparts]
  split
  · rfl
  · rfl

/-- A walk through a list of values visits them in order, and nothing after the state is final. -/
theorem PreOrder.traverseAll (h : PreOrder store values order) (hbuilt : ∀ v ∈ values, Built store v)
    (state : σ) : Value.traverseAll store visit isFinal state values = some (visitAll visit isFinal state order) := by
  induction h generalizing state with
  | nil => rw [Value.traverseAll, visitAll]
  | @cons v rest inner later _ _ ihparts ihrest =>
    have hv := hbuilt v List.mem_cons_self
    have hvisit : v.traverse store visit isFinal state = some (visitAll visit isFinal state (v :: inner)) :=
      hv.traverse (ihparts hv.parts) state
    rw [Value.traverseAll, hvisit, Option.bind_eq_bind, Option.bind_some, ← List.cons_append,
      visitAll_append (List.cons_ne_nil _ _), ihrest fun w hw => hbuilt w (List.mem_cons_of_mem _ hw)]
    split
    · rfl
    · rfl

/-- A walk through a value visits all of it in order, and nothing after the state is final. -/
theorem PreOrder.traverse (h : PreOrder store [v] order) (hbuilt : Built store v) (state : σ) :
    v.traverse store visit isFinal state = some (visitAll visit isFinal state order) := by
  cases h with
  | cons hparts hnil =>
    cases hnil
    rw [List.append_nil]
    exact hbuilt.traverse (hparts.traverseAll hbuilt.parts) state

/-! ## Where the walk ends -/

/-- The visits end after so many values: the state was not final before, and now it is, or the list is at its
end. -/
structure EndsAfter (visit : σ → Value → σ) (isFinal : σ → Bool) (state : σ) (order : List Value) (count : Nat) :
    Prop where
  pos : 0 < count
  le : count ≤ order.length
  before : ∀ earlier, 0 < earlier → earlier < count →
    isFinal ((order.take earlier).foldl visit state) = false
  ends : isFinal ((order.take count).foldl visit state) = true ∨ count = order.length

theorem exists_endsAfter (hne : order ≠ []) (state : σ) : ∃ count, EndsAfter visit isFinal state order count := by
  induction order generalizing state with
  | nil => exact absurd rfl hne
  | cons v rest ih =>
    by_cases hend : isFinal (visit state v) = true ∨ rest = []
    · refine ⟨1, Nat.one_pos, Nat.succ_pos _, fun earlier hpos hlt => by omega, ?_⟩
      rcases hend with hfinal | rfl
      · exact .inl hfinal
      · exact .inr rfl
    · obtain ⟨hfinal, hrest⟩ := not_or.mp hend
      obtain ⟨count, hpos, hle, hbefore, hends⟩ := ih hrest (visit state v)
      refine ⟨count + 1, Nat.succ_pos _, Nat.succ_le_succ hle, ?_, hends.imp id (congrArg (· + 1))⟩
      intro earlier hearlier hlt
      cases earlier with
      | zero => exact absurd hearlier (Nat.lt_irrefl 0)
      | succ earlier =>
        rcases Nat.eq_zero_or_pos earlier with rfl | hmore
        · simpa using hfinal
        · exact hbefore earlier hmore (Nat.lt_of_succ_lt_succ hlt)

/-- What is visited of a list. -/
theorem EndsAfter.visitAll {count : Nat} (h : EndsAfter visit isFinal state order count) :
    visitAll visit isFinal state order = (order.take count).foldl visit state := by
  induction order generalizing state count with
  | nil => rw [List.take_nil, Value.visitAll, List.foldl_nil]
  | cons v rest ih =>
    obtain ⟨hpos, hle, hbefore, hends⟩ := h
    obtain ⟨more, rfl⟩ := Nat.exists_eq_succ_of_ne_zero hpos.ne'
    rw [List.take_succ_cons, List.foldl_cons, Value.visitAll]
    rcases Nat.eq_zero_or_pos more with rfl | hmore
    · rcases hends with hfinal | hlast
      · exact if_pos hfinal
      · obtain rfl : rest = [] := List.eq_nil_of_length_eq_zero (Nat.succ.inj hlast).symm
        simp [Value.visitAll]
    · have hgoes : isFinal (visit state v) = false := hbefore 1 Nat.one_pos (Nat.succ_lt_succ hmore)
      rw [hgoes]
      refine ih ⟨hmore, Nat.le_of_succ_le_succ hle, fun earlier _ hlt => ?_, hends.imp id Nat.succ.inj⟩
      exact hbefore (earlier + 1) (Nat.succ_pos _) (Nat.succ_lt_succ hlt)

/-- The visitor, and a list of what it was given. -/
def logged (visit : σ → Value → σ) (state : σ × List Value) (v : Value) : σ × List Value :=
  (visit state.1 v, state.2 ++ [v])

theorem foldl_logged (values seen : List Value) (state : σ) :
    values.foldl (logged visit) (state, seen) = (values.foldl visit state, seen ++ values) := by
  induction values generalizing state seen with
  | nil => rw [List.append_nil]; rfl
  | cons v rest ih =>
    rw [List.foldl_cons, logged, ih, List.append_assoc]
    rfl

/-- **A walk visits the values in order and ends where the visitor wants it to end.**  The visitor is given
the first values of the order and no others, up to the first one after which the state is final, or all of
them if there is none. -/
theorem Built.traverse_preOrder (h : Built store v) :
    (∃ order, PreOrder store [v] order) ∧
    ∀ order, PreOrder store [v] order →
      ∀ {σ : Type} (visit : σ → Value → σ) (isFinal : σ → Bool) (state : σ),
        ∃ count, EndsAfter visit isFinal state order count ∧
          Value.traverse store visit isFinal state v = some ((order.take count).foldl visit state) ∧
          Value.traverse store (logged visit) (fun state => isFinal state.1) (state, []) v
            = some ((order.take count).foldl visit state, order.take count) := by
  refine ⟨h.exists_preOrder, fun order horder σ visit isFinal state => ?_⟩
  have hne : order ≠ [] := by
    cases horder
    exact List.cons_ne_nil _ _
  obtain ⟨count, hends⟩ : ∃ count, EndsAfter visit isFinal state order count := exists_endsAfter hne state
  have hlogged : EndsAfter (logged visit) (fun state => isFinal state.1) (state, []) order count := by
    refine ⟨hends.pos, hends.le, fun earlier hpos hlt => ?_, ?_⟩
    · rw [foldl_logged]
      exact hends.before earlier hpos hlt
    · rw [foldl_logged]
      exact hends.ends
  refine ⟨count, hends, ?_, ?_⟩
  · rw [horder.traverse h, hends.visitAll]
  · rw [horder.traverse h, hlogged.visitAll, foldl_logged, List.nil_append]

theorem built_leaf (hkind : v.kind ≠ .map) (hparts : v.parts store = []) : Built store v := by
  refine .intro (fun hmap => absurd hmap hkind) ?_
  rw [hparts]
  exact nofun

/-- A visitor that looks for a number ends the walk in the middle of a map with an editable array and a
document. -/
theorem Built.traverse_preOrder_number :
    let v : Value := .map 3 [("xs", .mutableArray 2), ("ys", .view 4 (.array [.bool true, .null]) [])]
    Value.traverse tray (logged fun found w => found || w.kind == .number) (fun state => state.1) (false, []) v
      = some (true, [v, .mutableArray 2, .number 1.0]) := by
  intro v
  let shown : Value := .view 4 (.array [.bool true, .null]) []
  have hparts : v.parts tray = [.mutableArray 2, shown] := rfl
  have harray : (Value.mutableArray 2).parts tray = [.number 1.0] := rfl
  have hshown : shown.parts tray = [.bool true, .null] := rfl
  have hbuilt : Built tray v := by
    refine .intro (fun _ => by decide) (hparts ▸ List.forall_mem_cons.mpr ⟨?_, List.forall_mem_singleton.mpr ?_⟩)
    · exact .intro nofun (harray ▸ List.forall_mem_singleton.mpr (built_leaf nofun rfl))
    · exact .intro nofun (hshown ▸ List.forall_mem_cons.mpr
        ⟨built_leaf nofun rfl, List.forall_mem_singleton.mpr (built_leaf nofun rfl)⟩)
  have hitem : PreOrder tray [.number 1.0] [.number 1.0] := @PreOrder.cons _ _ _ [] [] .nil .nil
  have hitems : PreOrder tray [.bool true, .null] [.bool true, .null] :=
    @PreOrder.cons _ _ _ [] [.null] .nil (@PreOrder.cons _ _ _ [] [] .nil .nil)
  have hbelow : PreOrder tray [.mutableArray 2, shown] [.mutableArray 2, .number 1.0, shown, .bool true, .null] :=
    @PreOrder.cons _ _ _ [.number 1.0] _ hitem (@PreOrder.cons _ _ _ [.bool true, .null] [] hitems .nil)
  have horder : PreOrder tray [v] [v, .mutableArray 2, .number 1.0, shown, .bool true, .null] :=
    @PreOrder.cons _ _ _ [.mutableArray 2, .number 1.0, shown, .bool true, .null] [] hbelow .nil
  obtain ⟨count, hends, -, hwalk⟩ :=
    hbuilt.traverse_preOrder.2 _ horder (fun found w => found || w.kind == .number) id false
  have hle : count ≤ 3 := Nat.le_of_not_lt fun hlt => nomatch hends.before 3 (by decide) hlt
  have hpos := hends.pos
  interval_cases count
  · exact hends.ends.elim nofun nofun
  · exact hends.ends.elim nofun nofun
  · exact hwalk

/-- The values that are visited up to a limit. -/
theorem visited_eq_take (h : Built store v) (horder : PreOrder store [v] order) (limit : Nat) :
    v.visited store limit = order.take (max 1 limit) := by
  have hvisits (values seen : List Value) :
      visitAll (fun seen w => w :: seen) (fun seen => decide (seen.length ≥ limit)) seen values
        = (values.take (max 1 (limit - seen.length))).reverse ++ seen := by
    induction values generalizing seen with
    | nil =>
      rw [List.take_nil]
      rfl
    | cons w rest ih =>
      rw [visitAll]
      by_cases hend : (w :: seen).length ≥ limit
      · rw [if_pos (decide_eq_true hend)]
        rw [List.length_cons] at hend
        rw [show max 1 (limit - seen.length) = 1 by omega]
        rfl
      · rw [if_neg (by simpa using hend), ih]
        rw [List.length_cons] at hend ⊢
        rw [show max 1 (limit - seen.length) = max 1 (limit - (seen.length + 1)) + 1 by omega]
        simp
  unfold visited
  rw [horder.traverse h, hvisits, List.append_nil]
  exact List.reverse_reverse _

end LiveTemplate.Value
