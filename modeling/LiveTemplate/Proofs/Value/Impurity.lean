import LiveTemplate.Proofs.Value.Snapshot
/-!
# Purity and the walk

Two recursions decide whether an operator is applied ahead of evaluation.  One asks every part of a value
whether it is pure, and the other one is a walk.  They go through the same tree: a value is impure exactly
if a walk through it comes to an impure function.

So a walk that looks for an impure function, and breaks off at the first one, tells the same as purity.
-/

set_option autoImplicit false

namespace LiveTemplate.Value

variable {store : Store} {v w : Value} {values order : List Value}

/-! ## Purity, part by part -/

/-- What a value contains is itself or contained in one of its children. -/
theorem contains_cases (h : Contains store v w) :
    w = v ∨ ∃ child ∈ v.children store, Contains store child w := by
  have hchild : ∀ {x y : Value}, y ∈ x.children store →
      (x = v ∨ ∃ child ∈ v.children store, Contains store child x) → Contains store x y →
      y = v ∨ ∃ child ∈ v.children store, Contains store child y := by
    rintro x y hy (rfl | ⟨child, hchild, hx⟩) hxy
    · exact .inr ⟨y, hy, .refl⟩
    · exact .inr ⟨child, hchild, hx.trans hxy⟩
  induction h with
  | refl => exact .inl rfl
  | @item x y _ hy ih =>
    refine hchild ?_ ih (Contains.refl.item hy)
    cases x <;> exact List.mem_append_left _ hy
  | @entry x entry _ hkind he ih =>
    refine hchild ?_ ih (Contains.refl.entry hkind he)
    cases x <;> first
      | exact List.mem_append_right _ (List.mem_map_of_mem he)
      | exact absurd rfl hkind
      | cases he
  | @operand x y _ hy ih =>
    refine hchild ?_ ih (Contains.refl.operand hy)
    cases x <;> first | exact hy | cases hy

theorem contains_child {child : Value} (h : child ∈ v.children store) : Contains store v child := by
  have hparts : v.kind ≠ .context →
      child ∈ v.items store ++ (v.entries store).map (fun entry => entry.2) → Contains store v child := by
    intro hkind hmem
    rcases List.mem_append.mp hmem with hitem | hentry
    · exact Contains.refl.item hitem
    · obtain ⟨entry, he, rfl⟩ := List.mem_map.mp hentry
      exact Contains.refl.entry hkind he
  cases v with
  | node ref op operands => exact Contains.refl.operand h
  | context ref scope => cases h
  | view ref document path =>
    refine hparts (fun hkind => ?_) h
    rcases kind_view ref document path with harray | hmap <;> simp_all
  | styling ref value => cases h
  | handle ref kind label => cases h
  | _ => exact hparts nofun h

/-- **Purity is asked of every part**: a value is pure if it is no impure function and its children are
pure. -/
theorem isPure_eq (v : Value) :
    v.isPure store = (!v.isImpureFunction && (v.children store).all fun child => child.isPure store) := by
  rw [Bool.eq_iff_iff, isPure_iff, Bool.and_eq_true, Bool.not_eq_true', List.all_eq_true]
  constructor
  · refine fun h => ⟨h v .refl, fun child hchild => isPure_iff.mpr fun w hw => ?_⟩
    exact h w ((contains_child hchild).trans hw)
  · rintro ⟨hself, hchildren⟩ w hw
    rcases contains_cases hw with rfl | ⟨child, hchild, hw⟩
    · exact hself
    · exact isPure_iff.mp (hchildren child hchild) w hw

/-! ## Purity and the order of the walk -/

/-- All values of a list are pure exactly if their walk comes to no impure function. -/
theorem PreOrder.all_isPure (h : PreOrder store values order) (hbuilt : ∀ v ∈ values, Built store v) :
    (values.all fun v => v.isPure store) = !order.any isImpureFunction := by
  induction h with
  | nil => rfl
  | @cons v rest inner later _ _ ihparts ihrest =>
    have hv := hbuilt v List.mem_cons_self
    rw [List.all_cons, isPure_eq, children_eq_parts hv.keys, ihparts hv.parts,
      ihrest fun w hw => hbuilt w (List.mem_cons_of_mem _ hw), List.any_cons, List.any_append, Bool.not_or,
      Bool.not_or, Bool.and_assoc]

theorem visitAll_append_all (values seen : List Value) :
    visitAll (fun seen w => seen ++ [w]) (fun _ => false) seen values = seen ++ values := by
  induction values generalizing seen with
  | nil => exact (List.append_nil seen).symm
  | cons v rest ih =>
    rw [visitAll, if_neg Bool.false_ne_true, ih, List.append_assoc]
    rfl

theorem visitAll_any (hit : Value → Bool) (values : List Value) :
    visitAll (fun found w => found || hit w) id false values = values.any hit := by
  induction values with
  | nil => rfl
  | cons v rest ih =>
    rw [visitAll, List.any_cons, Bool.false_or]
    cases hit v with
    | true => rfl
    | false => exact ih

/-- **Purity and the walk see the same tree.**  A walk through a value lists all that is in it, in order, and
the value is impure exactly if an impure function is listed.  A walk that breaks off at the first impure
function comes to one in just this case. -/
theorem Built.isPure_visited (h : Built store v) :
    ∃ order, PreOrder store [v] order ∧
      v.traverse store (fun seen w => seen ++ [w]) (fun _ => false) [] = some order ∧
      (v.isPure store = false ↔ ∃ w ∈ order, w.isImpureFunction = true) ∧
      v.traverse store (fun found w => found || w.isImpureFunction) id false = some (!v.isPure store) := by
  obtain ⟨order, horder⟩ := h.exists_preOrder
  have hpure : v.isPure store = !order.any isImpureFunction := by
    have hall := horder.all_isPure (List.forall_mem_singleton.mpr h)
    rwa [List.all_cons, List.all_nil, Bool.and_true] at hall
  refine ⟨order, horder, ?_, ?_, ?_⟩
  · rw [horder.traverse h, visitAll_append_all, List.nil_append]
  · rw [hpure, Bool.not_eq_false', List.any_eq_true]
  · rw [horder.traverse h, visitAll_any, hpure, Bool.not_not]

/-- A call that is nested in a node, an array and a map, beside an editable array: the walk breaks off where it
comes to the function. -/
theorem Built.isPure_visited_call :
    let v : Value := .map 3 [("calls", .array 4 [.node 5 .call [.function 6 .counter, .array 7 []]]),
      ("xs", .mutableArray 2)]
    v.isPure tray = false ∧
      v.traverse tray (fun found w => found || w.isImpureFunction) id false = some true ∧
      ∃ order, v.traverse tray (fun seen w => seen ++ [w]) (fun _ => false) [] = some order ∧
        ∃ w ∈ order, w.isImpureFunction = true := by
  intro v
  let node : Value := .node 5 .call [.function 6 .counter, .array 7 []]
  have hparts : v.parts tray = [.array 4 [node], .mutableArray 2] := rfl
  have hcalls : (Value.array 4 [node]).parts tray = [node] := rfl
  have hnode : node.parts tray = [.function 6 .counter, .array 7 []] := rfl
  have hxs : (Value.mutableArray 2).parts tray = [.number 1.0] := rfl
  have hbuilt : Built tray v := by
    refine .intro (fun _ => by decide) (hparts ▸ List.forall_mem_cons.mpr ⟨?_, List.forall_mem_singleton.mpr ?_⟩)
    · refine .intro nofun (hcalls ▸ List.forall_mem_singleton.mpr (.intro nofun ?_))
      exact hnode ▸ List.forall_mem_cons.mpr
        ⟨built_leaf nofun rfl, List.forall_mem_singleton.mpr (built_leaf nofun rfl)⟩
    · exact .intro nofun (hxs ▸ List.forall_mem_singleton.mpr (built_leaf nofun rfl))
  have himpure : v.isPure tray = false := rfl
  obtain ⟨order, -, hlisted, hvisited, hbreaks⟩ := hbuilt.isPure_visited
  rw [himpure] at hbreaks
  exact ⟨himpure, hbreaks, order, hlisted, hvisited.mp himpure⟩

end LiveTemplate.Value
