import LiveTemplate.Proofs.Template.Folding
import LiveTemplate.Proofs.Value.Snapshot
import Mathlib.Data.Fintype.Card
import Mathlib.Data.Set.Finite.Lattice
/-!
# Evaluating all of a value

Evaluating all of a value opens arrays and maps, and the bindings of a scope count as a map.  This comes to an
end exactly if nothing that is found on the way holds itself (`evaluateAll_ends`).

Whatever is found is a part of the value itself, or a part of what a scope binds or an editable container
holds.  So only finitely many values can be found, and a descent without end comes back to one that it has
opened before.

A container that nobody edits holds only what was there before it.  A scope is different, as it can be given a
binding later: bound to a value that holds the scope as a map, it holds itself.  This is the only way to a
descent without end, unless a container is edited.
-/

set_option autoImplicit false

namespace LiveTemplate.Template

open Relation (ReflTransGen TransGen)
open Value (Built HasPart opened refilled evaluateAll shown)

variable {store : Store} {scope : ScopeId} {v w : Value} {values : List Value} {e : Effects}

/-! ## What is found by opening -/

/-- Opening the first value, one finds the second. -/
def Opens (store : Store) (v w : Value) : Prop := w ∈ opened store v

/-- What is found by opening the value has been there since the value was made. -/
def IsFixed (v : Value) : Prop := v.isMutable = false ∧ v.kind ≠ .context

/-- The second value is found by opening fixed values, the first one first. -/
def Inside (store : Store) : Value → Value → Prop :=
  ReflTransGen fun v w => IsFixed v ∧ Opens store v w

theorem finite_inside_of (h : IsFixed v → ∀ w ∈ opened store v, {x | Inside store w x}.Finite) :
    {x | Inside store v x}.Finite := by
  by_cases hv : IsFixed v
  · refine ((Set.finite_singleton v).union ((opened store v).finite_toSet.biUnion (h hv))).subset ?_
    intro x hx
    rcases ReflTransGen.cases_head hx with rfl | ⟨w, ⟨-, hw⟩, hx⟩
    · exact .inl rfl
    · exact .inr (Set.mem_biUnion hw hx)
  · refine (Set.finite_singleton v).subset fun x hx => ?_
    rcases ReflTransGen.cases_head hx with rfl | ⟨_, ⟨hfixed, -⟩, -⟩
    · rfl
    · exact absurd hfixed hv

theorem finite_inside_of_nil (h : opened store v = []) : {x | Inside store v x}.Finite :=
  finite_inside_of fun _ w hw => by
    rw [h] at hw
    cases hw

theorem finite_inside_ofJson {ref : Ref} {document : Json} {path : List Char} (node : Json)
    (hview : {x | Inside store (.view ref document path) x}.Finite) :
    {x | Inside store (.ofJson ref document path node) x}.Finite := by
  cases node <;> first | exact finite_inside_of_nil rfl | exact hview

theorem lookup_of_mem {key : String} {child : Json} {fields : List (String × Json)}
    (h : (key, child) ∈ fields) : ∃ node, Json.lookup? key fields = some node := by
  induction fields with
  | nil => cases h
  | cons field rest ih =>
    unfold Json.lookup?
    split
    · exact ⟨_, rfl⟩
    · next hother =>
      rcases List.mem_cons.mp h with rfl | hrest
      · exact absurd (beq_self_eq_true key) hother
      · exact ih hrest

/-- A document has finitely many places. -/
theorem finite_inside_view {ref : Ref} {document node : Json} {path : List Char}
    (hshown : shown document path = node) : {x | Inside store (.view ref document path) x}.Finite := by
  induction node using Json.nested_induction generalizing path with
  | scalar node hscalar =>
    refine finite_inside_of_nil ?_
    cases node with
    | array items => cases hscalar
    | object fields => cases hscalar
    | _ => simp [opened, Value.items, Value.entries, hshown]
  | array items ih =>
    refine finite_inside_of fun _ w hw => ?_
    simp only [opened, Value.items, Value.entries, hshown, List.map_nil, List.append_nil, List.mem_mapIdx] at hw
    obtain ⟨i, hi, rfl⟩ := hw
    exact finite_inside_ofJson _ (ih _ (List.getElem_mem hi) (Value.shown_item hshown hi))
  | object fields ih =>
    refine finite_inside_of fun _ w hw => ?_
    simp only [opened, Value.items, Value.entries, hshown, List.map_map, List.nil_append, List.mem_map,
      Function.comp_def] at hw
    obtain ⟨⟨key, child⟩, hfield, rfl⟩ := hw
    -- of several fields with one name, the place shows the first
    obtain ⟨node, hlookup⟩ := lookup_of_mem hfield
    have hchild : (Selector.key key).child? (shown document path) = some node := by
      rw [hshown]
      exact hlookup
    have hplace := Value.shown_child hchild
    exact finite_inside_ofJson _ (ih _ (Json.mem_of_lookup hlookup) hplace)

/-- **Fixed values nest finitely many values.** -/
theorem finite_inside (store : Store) (v : Value) : {x | Inside store v x}.Finite := by
  induction v using Value.nested_induction with
  | atom v hatom =>
    cases v with
    | view ref document path => exact finite_inside_view rfl
    | mutableArray ref => exact finite_inside_of fun hfixed => absurd hfixed.1 (by simp [Value.isMutable])
    | mutableMap ref => exact finite_inside_of fun hfixed => absurd hfixed.1 (by simp [Value.isMutable])
    | context ref id => exact finite_inside_of fun hfixed => absurd rfl hfixed.2
    | _ => first | exact hatom.elim | exact finite_inside_of_nil rfl
  | array ref items ih =>
    refine finite_inside_of fun _ w hw => ih w ?_
    simpa [opened, Value.items, Value.entries] using hw
  | map ref entries ih =>
    refine finite_inside_of fun _ w hw => ?_
    obtain ⟨entry, hentry, rfl⟩ := List.mem_map.mp (show w ∈ entries.map fun entry => entry.2 from hw)
    exact ih entry hentry
  | node ref op operands _ => exact finite_inside_of_nil rfl
  | filter ref name properties _ => exact finite_inside_of_nil rfl

/-- What a cell holds. -/
def contents : Cell → List Value
  | .items values => values
  | .entries values => values.map fun entry => entry.2

/-- What is found in scopes and in editable containers. -/
def sources (store : Store) : List Value :=
  .null :: ((store.scopes.flatMap fun scope => scope.bindings.map fun entry => entry.2.value) ++
    store.cells.flatMap fun cell => contents cell.2)

theorem get_mem_sources (store : Store) (id : ScopeId) (name : String) : store.get id name ∈ sources store := by
  unfold Store.get Store.get?
  cases hbinding : store.binding? id name with
  | none => exact List.mem_cons_self
  | some binding =>
    obtain ⟨owner, howner, entry, hentry, rfl⟩ := Store.mem_of_binding? hbinding
    refine List.mem_cons_of_mem _ (List.mem_append_left _ ?_)
    exact List.mem_flatMap.mpr ⟨owner, howner, List.mem_map.mpr ⟨entry, hentry, rfl⟩⟩

theorem contents_mem_sources {ref : Ref} {cell : Cell} (hcell : store.cell? ref = some cell)
    (hw : w ∈ contents cell) : w ∈ sources store := by
  obtain ⟨found, hfound, rfl⟩ := Option.map_eq_some_iff.mp hcell
  refine List.mem_cons_of_mem _ (List.mem_append_right _ ?_)
  exact List.mem_flatMap.mpr ⟨found, List.mem_of_find?_eq_some hfound, hw⟩

/-- Nothing else is found in a value that is not fixed. -/
theorem Opens.mem_sources (hw : Opens store v w) (hv : ¬IsFixed v) : w ∈ sources store := by
  cases v with
  | mutableArray ref =>
    have hw : w ∈ store.cellItems ref ++ [] := hw
    rw [List.append_nil, Store.cellItems] at hw
    split at hw
    · next values hcell => exact contents_mem_sources hcell hw
    · cases hw
  | mutableMap ref =>
    have hw : w ∈ (store.cellEntries ref).map fun entry => entry.2 := hw
    rw [Store.cellEntries] at hw
    split at hw
    · next values hcell => exact contents_mem_sources hcell hw
    · cases hw
  | context ref id =>
    obtain ⟨entry, hentry, rfl⟩ :=
      List.mem_map.mp (show w ∈ ((Value.context ref id).entries store).map fun entry => entry.2 from hw)
    rw [Value.entries] at hentry
    split at hentry
    · obtain ⟨name, -, rfl⟩ := List.mem_map.mp hentry
      exact get_mem_sources store id name
    · cases hentry
  | view ref document path =>
    refine absurd ⟨rfl, fun hkind => ?_⟩ hv
    rw [Value.kind] at hkind
    split at hkind <;> cases hkind
  | array ref items => exact absurd ⟨rfl, by simp [Value.kind]⟩ hv
  | map ref entries => exact absurd ⟨rfl, by simp [Value.kind]⟩ hv
  | _ => cases hw

/-- **Only finitely many values can be found.** -/
theorem finite_found (store : Store) (v : Value) : {w | ReflTransGen (Opens store) v w}.Finite := by
  refine ((v :: sources store).finite_toSet.biUnion fun x _ => finite_inside store x).subset ?_
  intro w hw
  induction hw with
  | refl => exact Set.mem_biUnion List.mem_cons_self .refl
  | @tail x y _ hopens ih =>
    obtain ⟨root, hroot, hinside⟩ := Set.mem_iUnion₂.mp ih
    by_cases hx : IsFixed x
    · exact Set.mem_biUnion hroot (ReflTransGen.tail hinside ⟨hx, hopens⟩)
    · exact Set.mem_biUnion (List.mem_cons_of_mem _ (hopens.mem_sources hx)) .refl

/-! ## Descents that end -/

/-- Opening the value, and again what is found in it, comes to an end. -/
inductive Grounded (store : Store) : Value → Prop
  | intro {v : Value} : (∀ w ∈ opened store v, Grounded store w) → Grounded store v

theorem Grounded.found (h : Grounded store v) (hw : ReflTransGen (Opens store) v w) : Grounded store w := by
  induction hw with
  | refl => exact h
  | tail _ hopens ih =>
    obtain ⟨hbelow⟩ := ih
    exact hbelow _ hopens

theorem Grounded.irrefl (h : Grounded store v) : ¬TransGen (Opens store) v v := by
  induction h with
  | intro _ ih =>
    intro hloop
    obtain ⟨w, hw, hback⟩ := TransGen.head'_iff.mp hloop
    exact ih w hw (TransGen.tail' hback hw)

/-- **A descent ends unless it comes to a value that holds itself.** -/
theorem grounded_iff :
    Grounded store v ↔ ∀ w, ReflTransGen (Opens store) v w → ¬TransGen (Opens store) w w := by
  refine ⟨fun h w hw => (h.found hw).irrefl, fun h => ?_⟩
  let Found := {w // ReflTransGen (Opens store) v w}
  have hfinite : Finite Found := (finite_found store v).to_subtype
  let below (x y : Found) : Prop := TransGen (Opens store) y.1 x.1
  have htrans : IsTrans Found below := ⟨fun _ _ _ hxy hyz => hyz.trans hxy⟩
  have hirrefl : Std.Irrefl below := ⟨fun x => h x.1 x.2⟩
  have hwf : WellFounded below := Finite.wellFounded_of_trans_of_irrefl below
  suffices hall : ∀ x : Found, Grounded store x.1 from hall ⟨v, .refl⟩
  intro x
  induction x using hwf.induction with
  | h x ih => exact .intro fun w hw => ih ⟨w, x.2.tail hw⟩ (.single hw)

/-! ## Evaluation -/

/-- Evaluate a part, unless a part before it broke off. -/
def collect (run : Value → Effects → Option (Outcome Value)) (outcome : Outcome (List Value)) (part : Value) :
    Option (Outcome (List Value)) :=
  match outcome with
  | (.ok values, e) => do
    let (value, e) ← run part e
    some (value.map (values ++ [·]), e)
  | fault => some fault

theorem collect_ends {run : Value → Effects → Option (Outcome Value)}
    (h : ∀ v ∈ values, ∀ e, ∃ outcome, run v e = some outcome) (outcome : Outcome (List Value)) :
    ∃ outcome', values.foldlM (collect run) outcome = some outcome' := by
  induction values generalizing outcome with
  | nil => exact ⟨outcome, rfl⟩
  | cons v rest ih =>
    have hnext : ∃ next, collect run outcome v = some next := by
      obtain ⟨result | done, e⟩ := outcome
      · exact ⟨_, rfl⟩
      · obtain ⟨⟨value, e'⟩, hv⟩ := h v List.mem_cons_self e
        exact ⟨(value.map (done ++ [·]), e'), by simp [collect, hv]⟩
    obtain ⟨next, hnext⟩ := hnext
    obtain ⟨outcome', hrest⟩ := ih (fun w hw => h w (List.mem_cons_of_mem _ hw)) next
    exact ⟨outcome', by rw [List.foldlM_cons, hnext]; exact hrest⟩

/-- Where descents end, so does evaluation. -/
theorem Grounded.ends (h : Grounded store v) (e : Effects) :
    ∃ outcome, evaluateAll store scope v e = some outcome := by
  induction h generalizing e with
  | @intro v _ ih =>
    rw [Value.evaluateAll.eq_def]
    split
    · exact ⟨_, rfl⟩
    · obtain ⟨⟨values, e'⟩, hvalues⟩ := collect_ends ih (.ok [], e)
      cases values <;> exact ⟨_, Option.bind_eq_some_iff.mpr ⟨_, hvalues, rfl⟩⟩

/-- What an outcome tells of the values that were evaluated: their descents end, or a text that is found in
one of them broke off. -/
def Tells {α : Type} (store : Store) (scope : ScopeId) (values : List Value) : Outcome α → Prop
  | (.ok _, _) => ∀ v ∈ values, Grounded store v
  | (.error x, e') => ∃ v ∈ values, ∃ source, ReflTransGen (Opens store) v (.text source) ∧
      ∃ e, (evaluate store scope source).run e = (.error x, e')

theorem collect_tells {run : Value → Effects → Option (Outcome Value)}
    (hrun : ∀ v e outcome, run v e = some outcome → Tells store scope [v] outcome) {before : List Value}
    {outcome outcome' : Outcome (List Value)} (h : Tells store scope before outcome)
    (hfold : values.foldlM (collect run) outcome = some outcome') :
    Tells store scope (before ++ values) outcome' := by
  induction values generalizing before outcome with
  | nil =>
    obtain rfl : outcome = outcome' := Option.some.inj hfold
    rwa [List.append_nil]
  | cons v rest ih =>
    rw [List.foldlM_cons] at hfold
    obtain ⟨next, hnext, hfold⟩ := Option.bind_eq_some_iff.mp hfold
    rw [List.append_cons]
    refine ih ?_ hfold
    obtain ⟨x | done, e⟩ := outcome
    · obtain rfl : (.error x, e) = next := Option.some.inj hnext
      obtain ⟨w, hw, hsource⟩ := h
      exact ⟨w, List.mem_append_left _ hw, hsource⟩
    · obtain ⟨⟨value, e'⟩, hv, hnext⟩ := Option.bind_eq_some_iff.mp hnext
      obtain rfl := Option.some.inj hnext
      have hv := hrun v e _ hv
      cases value with
      | error x =>
        obtain ⟨w, hw, hsource⟩ := hv
        exact ⟨w, List.mem_append_right _ hw, hsource⟩
      | ok value => exact List.forall_mem_append.mpr ⟨h, hv⟩

theorem refilled_run (store : Store) (v : Value) (values : List Value) (e : Effects) :
    ∃ w e', (refilled store v values).run e = (.ok w, e') := by
  unfold refilled
  split
  · exact ⟨_, _, rfl⟩
  · split <;> exact ⟨_, _, rfl⟩

/-- **Whatever comes of a value, its descents end or a text in it broke off.** -/
theorem evaluateAll_tells {outcome : Outcome Value} (h : evaluateAll store scope v e = some outcome) :
    Tells store scope [v] outcome := by
  refine Value.evaluateAll.partial_correctness store scope (fun v _ outcome => Tells store scope [v] outcome)
    (fun run hrun v e outcome h => ?_) v e outcome h
  split at h
  · next source =>
    obtain rfl := Option.some.inj h
    rcases hsource : (evaluate store scope source).run e with ⟨x | value, e'⟩
    · exact ⟨_, List.mem_singleton_self _, source, .refl, e, hsource⟩
    · exact List.forall_mem_singleton.mpr (.intro fun _ hw => absurd hw List.not_mem_nil)
  · obtain ⟨⟨values, e'⟩, hfold, h⟩ := Option.bind_eq_some_iff.mp h
    have hnone : Tells store scope [] ((.ok [], e) : Outcome (List Value)) := fun _ hv => absurd hv List.not_mem_nil
    have htells : Tells store scope ([] ++ opened store v) (values, e') := collect_tells hrun hnone hfold
    cases values with
    | error x =>
      obtain rfl := Option.some.inj h
      obtain ⟨w, hw, source, hfound, hsource⟩ := htells
      exact ⟨v, List.mem_singleton_self v, source, hfound.head hw, hsource⟩
    | ok values =>
      obtain rfl := Option.some.inj h
      obtain ⟨value, e'', hrefilled⟩ := refilled_run store v values e'
      rw [hrefilled]
      exact List.forall_mem_singleton.mpr (.intro htells)

/-! ## Values that hold themselves -/

theorem Opens.scope_or_part (hw : Opens store v w) (h : Built store v) :
    (∃ ref id, v = .context ref id) ∨ HasPart store v w := by
  rw [HasPart, ← Value.children_eq_parts h.keys]
  cases v with
  | context ref id => exact .inl ⟨ref, id, rfl⟩
  | node ref op operands => cases hw
  | _ => exact .inr hw

/-- The way from a built value to what is found in it leads through a scope, or only through parts. -/
theorem through_scope_or_parts (hw : TransGen (Opens store) v w) (h : Built store v) :
    (∃ ref id, ReflTransGen (Opens store) v (.context ref id) ∧ TransGen (Opens store) (.context ref id) w) ∨
      TransGen (HasPart store) v w := by
  induction hw using TransGen.head_induction_on with
  | @single v hopens =>
    rcases hopens.scope_or_part h with ⟨ref, id, rfl⟩ | hpart
    · exact .inl ⟨ref, id, .refl, .single hopens⟩
    · exact .inr (.single hpart)
  | @head v x hopens hrest ih =>
    rcases hopens.scope_or_part h with ⟨ref, id, rfl⟩ | hpart
    · exact .inl ⟨ref, id, .refl, .head hopens hrest⟩
    · rcases ih (h.parts x hpart) with ⟨ref, id, hscope, hback⟩ | hparts
      · exact .inl ⟨ref, id, hscope.head hopens, hback⟩
      · exact .inr (.head hpart hparts)

/-- **Evaluating all of a value ends exactly if nothing that is found in it holds itself.**  Then it ends in
a value, unless a day count overflows.  Otherwise it goes on for ever, unless it comes to a text first in
which a day count overflows.  And a value that holds itself, though it is built of containers that do not,
holds a scope that is bound to a value with this scope in it. -/
theorem evaluateAll_ends (store : Store) (scope : ScopeId) (v : Value) :
    ((∀ w, ReflTransGen (Opens store) v w → ¬TransGen (Opens store) w w) → ∀ e, ∃ result e',
      evaluateAll store scope v e = some (result, e') ∧ ∀ x, result = .error x → x.IsOverflow) ∧
    (∀ w, ReflTransGen (Opens store) v w → TransGen (Opens store) w w → ∀ e,
      evaluateAll store scope v e = none ∨ ∃ x e', evaluateAll store scope v e = some (.error x, e') ∧
        x.IsOverflow ∧ ∃ source, ReflTransGen (Opens store) v (.text source) ∧
          ∃ e, (evaluate store scope source).run e = (.error x, e')) ∧
    ∀ w, Built store w → TransGen (Opens store) w w →
      ∃ ref id, ReflTransGen (Opens store) w (.context ref id) ∧
        TransGen (Opens store) (.context ref id) (.context ref id) := by
  have hfault : ∀ {e e' : Effects} {x : Fault}, evaluateAll store scope v e = some (.error x, e') →
      x.IsOverflow ∧ ∃ source, ReflTransGen (Opens store) v (.text source) ∧
        ∃ e, (evaluate store scope source).run e = (.error x, e') := by
    intro e e' x hrun
    obtain ⟨w, hw, source, hfound, e₀, hsource⟩ := evaluateAll_tells hrun
    obtain rfl := List.mem_singleton.mp hw
    exact ⟨(evaluate_ends store scope source).fault hsource, source, hfound, e₀, hsource⟩
  refine ⟨fun h e => ?_, fun w hw hloop e => ?_, fun w hw hloop => ?_⟩
  · have hends : ∃ outcome, evaluateAll store scope v e = some outcome := (grounded_iff.mpr h).ends e
    obtain ⟨⟨result, e'⟩, hrun⟩ := hends
    refine ⟨result, e', hrun, ?_⟩
    rintro x rfl
    exact (hfault hrun).1
  · rcases hrun : evaluateAll store scope v e with - | ⟨x | value, e'⟩
    · exact .inl rfl
    · exact .inr ⟨x, e', rfl, hfault hrun⟩
    · have hgrounded : Grounded store v := evaluateAll_tells hrun v (List.mem_singleton_self v)
      exact absurd hloop (grounded_iff.mp hgrounded w hw)
  · rcases through_scope_or_parts hloop hw with ⟨ref, id, hscope, hback⟩ | hparts
    · exact ⟨ref, id, hscope, hback.trans_left hscope⟩
    · exact absurd hparts hw.irrefl

/-- A scope that is bound to itself. -/
def mirror : Store := ⟨[⟨[0], [("A", ⟨.array 2 [.context 3 0], .constant⟩)], {}, {}⟩], [0], []⟩

/-- The map of this scope has no end.  An array beside it has one. -/
theorem evaluateAll_ends_beside_mirror :
    evaluateAll mirror 0 (.context 3 0) (Effects.initial 1) = none ∧
      ∃ result e', evaluateAll mirror 0 (.array 2 [.null]) (Effects.initial 1) = some (result, e') := by
  have hhere : Opens mirror (.context 3 0) (.array 2 [.context 3 0]) := List.mem_singleton_self _
  have hback : Opens mirror (.array 2 [.context 3 0]) (.context 3 0) := List.mem_singleton_self _
  have hfound : ∀ w, ReflTransGen (Opens mirror) (.context 3 0) w →
      w = .context 3 0 ∨ w = .array 2 [.context 3 0] := by
    intro w hw
    induction hw with
    | refl => exact .inl rfl
    | tail _ hopens ih =>
      rcases ih with rfl | rfl
      · exact .inr (List.mem_singleton.mp hopens)
      · exact .inl (List.mem_singleton.mp hopens)
  have hgrounded : Grounded mirror (.array 2 [.null]) :=
    .intro fun w hw => .intro fun x hx => by rw [List.mem_singleton.mp hw] at hx; cases hx
  constructor
  · obtain ⟨-, hendless, -⟩ := evaluateAll_ends mirror 0 (.context 3 0)
    rcases hendless _ .refl (.head hhere (.single hback)) (Effects.initial 1) with
      hnone | ⟨x, e', -, -, source, hsource, -⟩
    · exact hnone
    · rcases hfound _ hsource with h | h <;> cases h
  · obtain ⟨hends, -, -⟩ := evaluateAll_ends mirror 0 (.array 2 [.null])
    obtain ⟨result, e', hrun, -⟩ := hends (grounded_iff.mp hgrounded) (Effects.initial 1)
    exact ⟨result, e', hrun⟩

end LiveTemplate.Template
