import LiveTemplate.Proofs.Value.Equivalence
import LiveTemplate.Proofs.Watch.Steps
/-!
# What a write stores

A write that succeeds of another value than the one that is there stores it: from then on whoever sees the
binding sees this very value, in every world that comes about until somebody binds or writes the name
there again.  If the value is an editable container, every edit shows through the binding.

A write of an equal value succeeds, too, and stores nothing.  Then what was there stays there.  Mostly that
is no difference, since equal values of most kinds are one and the same.  But the two zeros are equal, and
so are containers with the same content; so the zero that stays may have the other sign, and the container
that stays may be another one, which does not show later edits of the one that was written.
-/

set_option autoImplicit false

namespace LiveTemplate

open Value
open Run (run_bind)

/-! ## Values that stand for others -/

namespace Value

variable {store : Store} {kept value : Value}

/-- The double that a number or a dimension is. -/
def double? : Value → Option Float
  | .number x | .absolute x | .relative x => some x
  | _ => none

/-- A value that is there stands for an equal one.  It is the same one if the kind goes by identity, and
the same double but for the sign of a zero. -/
structure StandsFor (store : Store) (kept value : Value) : Prop where
  same : kept.same store value = true
  identity : value.kind.comparesByIdentity = true → isIdentical kept value = true
  double : ∀ x y, kept.double? = some x → value.double? = some y →
    x = y ∨ (x = 0 ∧ y = -0) ∨ (x = -0 ∧ y = 0)

theorem kind_expanded_of_identity (h : value.kind.comparesByIdentity = true) :
    (value.expanded store).kind = value.kind := by
  cases value with
  | view ref document path => rw [comparesByIdentity_view] at h; cases h
  | _ => rfl

theorem identity_expanded (h : (kept.expanded store).kind.comparesByIdentity = true) :
    (kept.expanded store).identity? = kept.identity? := by
  cases kept with
  | view ref document path =>
    change (copyJson ref (shown document path)).kind.comparesByIdentity = true at h
    cases hshown : shown document path <;> rw [hshown] at h <;> cases h
  | _ => rfl

theorem identical_of_same (h : kept.same store value = true)
    (hkind : value.kind.comparesByIdentity = true) : isIdentical kept value = true := by
  have hvalue : (value.expanded store).kind.comparesByIdentity = true := by
    rw [kind_expanded_of_identity hkind]
    exact hkind
  have hback := agree_of_same h
  generalize ha : kept.expanded store = a at hback
  generalize hb : value.expanded store = b at hback hvalue
  cases hback with
  | identity hsame hcompares hid =>
    subst ha hb
    unfold isIdentical at hid ⊢
    rwa [identity_expanded hcompares, identity_expanded hvalue] at hid
  | items _ hitems => rw [kind_of_fixedItems hitems] at hvalue; cases hvalue
  | entries _ hentries => rw [kind_of_fixedEntries hentries] at hvalue; cases hvalue
  | @styling _ _ _ t => cases t <;> cases hvalue
  | _ => cases hvalue

theorem eq_or_zero {x y : Float} (h : (x == y) = true) :
    x = y ∨ (x = 0 ∧ y = -0) ∨ (x = -0 ∧ y = 0) :=
  (Float.beq_iff_ne_nan_and_eq.mp h).2.2

theorem standsFor_of_same (h : kept.same store value = true) : StandsFor store kept value := by
  refine ⟨h, identical_of_same h, fun x y hx hy => ?_⟩
  -- a number and a dimension are not equal, and neither are dimensions of two kinds
  cases kept <;> cases hx <;> cases value <;> cases hy <;>
    first
    | exact eq_or_zero h
    | cases show false = true from h

end Value

/-! ## What is read from then on -/

namespace Store

variable {store : Store}

/-- What an editable array was set to is what it holds. -/
theorem cellItems_setCell (store : Store) (ref : Ref) (values : List Value) :
    (store.setCell ref (.items values)).cellItems ref = values := by
  simp [cellItems, cell?, setCell]

/-- What an editable map was set to is what it holds. -/
theorem cellEntries_setCell (store : Store) (ref : Ref) (values : List (String × Value)) :
    (store.setCell ref (.entries values)).cellEntries ref = values := by
  simp [cellEntries, cell?, setCell]

end Store

namespace World

/-- The scope reads this value under the name; and if this is an editable container, then after every edit
of it what is read holds what the edit has made of the content. -/
structure Reads (world : World) (scope : ScopeId) (name : String) (value : Value) : Prop where
  get : world.store.get? scope name = some value
  items : ∀ (ref : Ref) (β : Type) (edit : List Value → List Value × β), value = .mutableArray ref →
    let later := ((Action.editArray value edit).run world).2
    (later.store.get scope name).items later.store = (edit (value.items world.store)).1
  entries : ∀ (ref : Ref) (β : Type)
    (edit : List (String × Value) → List (String × Value) × β), value = .mutableMap ref →
    let later := ((Action.editMap value edit).run world).2
    (later.store.get scope name).entries later.store = (edit (value.entries world.store)).1

/-- Edits show through whatever is read. -/
theorem reads_of_get {world : World} {scope : ScopeId} {name : String} {value : Value}
    (h : world.store.get? scope name = some value) : world.Reads scope name value := by
  have hget : world.store.get scope name = value := by simp [Store.get, h]
  refine ⟨h, ?_, ?_⟩
  · rintro ref β edit rfl
    show (world.store.get scope name).items (world.store.setCell ref _) = _
    rw [hget]
    exact Store.cellItems_setCell ..
  · rintro ref β edit rfl
    show (world.store.get scope name).entries (world.store.setCell ref _) = _
    rw [hget]
    exact Store.cellEntries_setCell ..

end World

namespace Action

open World

variable {world world' : World} {scope : ScopeId} {name : String} {value : Value}

/-- **What a write stores.**  A write that succeeds goes to the nearest scope that binds the name.  If
another value is bound there, the value is stored; if an equal one is, this one stays, and nothing
changes.  Whatever is done later, as long as nobody binds or writes the name in that scope: whoever sees
the binding reads the value that was stored, or that stayed, and sees every edit of it. -/
theorem write_lasts (writer : Writer)
    (h : (writer.write scope name value).run world = (.ok true, world')) :
    ∃ owner binding kept, world.store.Nearest scope name owner binding ∧
      ((binding.value.same world.store value = false ∧ kept = value) ∨
        (kept = binding.value ∧ world' = world ∧ StandsFor world.store kept value)) ∧
      ∀ last, LeadsWithout owner name world' last → ∀ reader found,
        last.store.Nearest reader name owner found → last.Reads reader name kept := by
  rw [Writer.write_eq] at h
  rcases writeIf_ends h with ⟨-, hno, -⟩ | ⟨owner, binding, howned, hends⟩
  · cases hno
  have hown := Store.ownBinding?_of_owned? howned
  -- whatever is bound there now is read as long as it stays
  have hreads : ∀ {bound}, world'.store.ownBinding? owner name = some bound → ∀ last,
      LeadsWithout owner name world' last → ∀ reader found,
      last.store.Nearest reader name owner found → last.Reads reader name bound.value := by
    intro bound hbound last hleads reader found hfound
    have hlast := hleads.ownBinding? hbound
    have hanswers := hfound.answers
    obtain ⟨-, -, -, -, hfound⟩ := hfound
    obtain rfl : bound = found := Option.some.inj (hlast.symm.trans hfound)
    exact reads_of_get hanswers.get
  rcases hends with ⟨-, hno, -⟩ | ⟨-, hsame, -, rfl⟩ | ⟨-, hdiffers, outcome, hrun, -⟩
  · cases hno
  · exact ⟨owner, binding, binding.value, Store.owned_iff_nearest.mp howned,
      .inr ⟨rfl, rfl, standsFor_of_same hsame⟩, hreads hown⟩
  · refine ⟨owner, binding, value, Store.owned_iff_nearest.mp howned, .inl ⟨hdiffers, rfl⟩, ?_⟩
    obtain ⟨found, hscope, -⟩ := Store.scope?_of_ownBinding? hown
    have hstored : world'.store.ownBinding? owner name = some ⟨value, binding.kind⟩ := by
      rw [(recalculateAll_sameWatches hrun).store]
      exact Store.ownBinding?_bind_self world.store owner name _ hscope
    exact hreads hstored

/-- An editable array is written in the root; a child that is made later reads it there. -/
theorem write_lasts_in_child : ∃ world', (userWrite 0 "x" (.mutableArray 9)).run guardedChild =
      (.ok true, world') ∧
    (((newChild 0).run world').2).Reads 2 "x" (.mutableArray 9) := by
  have hwritten : ((userWrite 0 "x" (.mutableArray 9)).run guardedChild).1.toOption = some true := by
    decide +kernel
  have howned : ((guardedChild.store.owned? 0 "x").any fun found => found.1 == 0 &&
      !found.2.value.same guardedChild.store (.mutableArray 9)) = true := by decide +kernel
  have hchild : ((((newChild 0).run ((userWrite 0 "x" (.mutableArray 9)).run guardedChild).2).2.store.owned?
      2 "x").any fun found => found.1 == 0) = true := by decide +kernel
  generalize guardedChild = world at hwritten howned hchild
  rcases hrun : (userWrite 0 "x" (.mutableArray 9)).run world with ⟨_ | done, world'⟩ <;>
    rw [hrun] at hwritten hchild <;> cases hwritten
  obtain ⟨owner, binding, kept, hnearest, hkept, hreads⟩ := write_lasts .user hrun
  rw [Store.owned_iff_nearest.mpr hnearest] at howned
  obtain ⟨howner, hdiffers⟩ := (Bool.and_eq_true _ _).mp howned
  obtain rfl : owner = 0 := eq_of_beq howner
  rcases hkept with ⟨-, rfl⟩ | ⟨rfl, -, hstands⟩
  · obtain ⟨⟨other, found⟩, hfound, hother⟩ := (Option.any_eq_true _ _).mp hchild
    obtain rfl : other = 0 := eq_of_beq hother
    refine ⟨world', rfl, hreads _ (.single ?_) 2 found (Store.owned_iff_nearest.mp hfound)⟩
    exact ⟨_, newChild 0, .other, .newChild 0, id, rfl⟩
  · simp [hstands.same] at hdiffers

/-- A root in which a name is bound to zero. -/
def zeroRoot : World := ((put 0 "x" .user (.number 0.0)).run onlyRoot).2

/-- The other zero is written successfully, and not stored. -/
theorem write_of_other_zero : zeroRoot.Reachable ∧
    (userWrite 0 "x" (.number (-0.0))).run zeroRoot = (.ok true, zeroRoot) ∧
    zeroRoot.store.get? 0 "x" = some (.number 0.0) ∧
    zeroRoot.store.get? 0 "x" ≠ some (.number (-0.0)) := by
  refine ⟨((World.Reachable.initial 1).step (.newRoot {} {})).step (.put 0 "x" .user (.number 0.0)), ?_⟩
  have hlineage : onlyRoot.store.lineage 0 = [0] := by decide +kernel
  have howned : zeroRoot.store.owned? 0 "x" = some (0, ⟨.number 0.0, .user⟩) := by
    unfold zeroRoot
    rw [run_put]
    exact Store.owned_iff_nearest.mpr (Store.nearest_bind hlineage)
  generalize zeroRoot = world at howned ⊢
  have hget : world.store.get? 0 "x" = some (.number 0.0) := by
    simp [Store.get?, Store.binding?, howned]
  have hsame : (Value.number 0.0).same world.store (.number (-0.0)) = true := by
    show ((0.0 : Float) == -0.0) = true
    decide +kernel
  have hzeros : (0.0 : Float) ≠ -0.0 := by decide +kernel
  refine ⟨?_, hget, fun hother => hzeros ?_⟩
  · unfold userWrite writeIf
    simp [run_bind, howned, hsame]
  · exact Value.number.inj (Option.some.inj (hget.symm.trans hother))

/-- An editable array with the same content is not stored either, and then an edit of it does not
show. -/
example :
    let world := ((put 0 "x" .user (.array 5 [.bool true])).run onlyRoot).2
    let given := (newArray [.bool true]).run world
    (given.1.toOption.any fun v =>
      let written := (userWrite 0 "x" v).run given.2
      let later := ((editArray v fun items => (items ++ [.null], ())).run written.2).2
      written.1.toOption == some true && (v.items later.store).length == 2 &&
        ((later.store.get 0 "x").items later.store).length == 1) = true := by decide +kernel

end Action

end LiveTemplate
