import LiveTemplate.Proofs.Operator.Content
import LiveTemplate.Proofs.Template.Folding
import LiveTemplate.Proofs.Value.Copies
import LiveTemplate.Proofs.Value.Views
/-!
# Views are as good as copies

Whether a document is seen through a view or was copied into arrays and maps makes no difference to
anybody: not to those who walk down it and ask, whatever they or others asked before, and not to
those who evaluate a template that reads it.

For templates, the name of the document is bound in two children of one scope, to the view in one and
to the copy in the other.  Every other name is the same for both, for they look it up in the same
ancestors.
-/

set_option autoImplicit false

namespace LiveTemplate

open Value
open Run (Related)

/-! ## Children that bind one name -/

namespace Store

/-- The store with two children of a scope that bind one name, each to a value of its own; and the
two children. -/
def addSiblings (store : Store) (parent : ScopeId) (kind : BindingKind) (name : String)
    (first second : Value) : Store × ScopeId × ScopeId :=
  let (one, a) := store.addBound parent kind [(name, first)]
  let (two, b) := one.addBound parent kind [(name, second)]
  (two, a, b)

/-- A child of a scope that is held, binds one name, and takes all else from its parent. -/
structure BindsOne (store : Store) (id parent : ScopeId) (name : String) (binding : Binding) : Prop where
  scope : ∃ child, store.scope? id = some child ∧ child.lineage = id :: store.lineage parent ∧
    child.bindings = [(name, binding)] ∧ child.viewport = store.viewport parent
  held : id ∈ store.held

section

variable {store : Store} {parent : ScopeId} {scope : Scope} (hparent : store.scope? parent = some scope)

include hparent

/-- The parent keeps what its children take from it. -/
theorem parent_addBound (kind : BindingKind) (bound : List (String × Value)) :
    (store.addBound parent kind bound).1.lineage parent = store.lineage parent ∧
      (store.addBound parent kind bound).1.viewport parent = store.viewport parent := by
  simp only [lineage, viewport, scope?_addBound_old hparent kind bound hparent, hparent, and_self]

theorem bindsOne_addBound (kind : BindingKind) (name : String) (v : Value) :
    BindsOne (store.addBound parent kind [(name, v)]).1 store.scopes.length parent name ⟨v, kind⟩ where
  scope := by
    obtain ⟨hlineage, hviewport⟩ := parent_addBound hparent kind [(name, v)]
    refine ⟨_, scope?_addBound_new hparent kind [(name, v)], ?_, rfl, ?_⟩
    · rw [hlineage]
      rfl
    · rw [hviewport, viewport, hparent]
      rfl
  held := by
    rw [held_addBound hparent]
    exact List.mem_cons_self

theorem BindsOne.addBound {id : ScopeId} {name : String} {binding : Binding}
    (h : BindsOne store id parent name binding) (kind : BindingKind) (bound : List (String × Value)) :
    BindsOne (store.addBound parent kind bound).1 id parent name binding where
  scope := by
    obtain ⟨child, hchild, hlineage, hbindings, hviewport⟩ := h.scope
    obtain ⟨hlineage', hviewport'⟩ := parent_addBound hparent kind bound
    exact ⟨child, scope?_addBound_old hparent kind bound hchild, hlineage.trans (by rw [hlineage']),
      hbindings, hviewport.trans hviewport'.symm⟩
  held := by
    rw [held_addBound hparent]
    exact List.mem_cons_of_mem _ h.held

end

namespace BindsOne

variable {store : Store} {id parent : ScopeId} {name : String} {binding : Binding}
  (h : BindsOne store id parent name binding)

include h

theorem viewport_eq : store.viewport id = store.viewport parent := by
  obtain ⟨child, hchild, -, -, hviewport⟩ := h.scope
  rw [← hviewport, viewport, hchild]

theorem owned?_eq (other : String) :
    store.owned? id other = if name == other then some (id, binding) else store.owned? parent other := by
  obtain ⟨child, hchild, hlineage, hbindings, -⟩ := h.scope
  rw [owned?_step hchild hlineage, hbindings, Json.lookup?]
  cases name == other <;> rfl

/-- A symbol finds what the child binds. -/
theorem seen_eq : store.seen id name = binding.value := by
  obtain ⟨child, hchild, hlineage, -⟩ := h.scope
  have hlive : store.isLive id = true := isLive_of_held h.held (by simp [lineage, hchild, hlineage])
  have howned : store.owned? id name = some (id, binding) := by simp [h.owned?_eq]
  simp [seen, hlive, get_of_owned? howned]

end BindsOne

theorem bindsOne_addSiblings {store : Store} {parent : ScopeId} {scope : Scope}
    (hparent : store.scope? parent = some scope) (kind : BindingKind) (name : String)
    (first second : Value) :
    let siblings := store.addSiblings parent kind name first second
    BindsOne siblings.1 siblings.2.1 parent name ⟨first, kind⟩ ∧
      BindsOne siblings.1 siblings.2.2 parent name ⟨second, kind⟩ := by
  have hparent' := scope?_addBound_old hparent kind [(name, first)] hparent
  unfold addSiblings
  dsimp only
  rw [addBound_id hparent, addBound_id hparent']
  exact ⟨(bindsOne_addBound hparent kind name first).addBound hparent' kind _,
    bindsOne_addBound hparent' kind name second⟩

end Store

/-! ## Templates in both children -/

section

variable {store : Store} {a b parent : ScopeId} {name : String} {v w : Value} {kind : BindingKind}

theorem resolve_siblings (ha : store.BindsOne a parent name ⟨v, kind⟩)
    (hb : store.BindsOne b parent name ⟨w, kind⟩) (h : v.content = w.content) (other : String) :
    Related Effects.Agree Run.Never (Reflects store) (store.resolve a other)
      (store.resolve b other) := by
  have hlike : (contentBlur store).Like v w := h
  rw [Store.resolve_eq, Store.resolve_eq, ha.owned?_eq, hb.owned?_eq]
  by_cases hname : (name == other) = true
  · rw [if_pos hname, if_pos hname]
    obtain rfl : name = other := by simpa using hname
    have hsymbol : (contentBlur store).Like (store.seen a name) (store.seen b name) := by
      rw [ha.seen_eq, hb.seen_eq]
      exact hlike
    cases kind with
    | constant => exact .pure (reflects_like hlike)
    | user | system =>
      exact .fresh_bind Effects.loose_agree fun m n => .pure (reflects_symbol hsymbol)
  · rw [if_neg hname, if_neg hname]
    -- another name is owned by the same ancestor for both
    rcases store.owned? parent other with _ | ⟨owner, found⟩
    · exact .pure (reflects_like rfl)
    · dsimp only
      split
      · exact .pure (reflects_like rfl)
      · exact .fresh_bind Effects.loose_agree fun m n => .pure (reflects_symbol rfl)

theorem corresponds_siblings (ha : store.BindsOne a parent name ⟨v, kind⟩)
    (hb : store.BindsOne b parent name ⟨w, kind⟩) (h : v.content = w.content) :
    Template.Corresponds Effects.Agree Run.Never (Reflects store) store store a b where
  leaf := Template.ofLeaf_related (ha.viewport_eq.trans hb.viewport_eq.symm)
    (fun _ _ => reflects_like rfl) (resolve_siblings ha hb h)
  builder := {
    blank := reflects_like rfl
    build := fun op _ _ hvs => Operator.build_reflects op hvs }

theorem related_siblings (ha : store.BindsOne a parent name ⟨v, kind⟩)
    (hb : store.BindsOne b parent name ⟨w, kind⟩) (h : v.content = w.content) (source : String) :
    Related Effects.Agree Run.Never (contentBlur store).Like (Template.evaluate store a source)
      (Template.evaluate store b source) :=
  (corresponds_siblings ha hb h).evaluate (fun _ => reflects_like rfl) (fun s => .refl (.text s))
    (fun _ _ hvw => hvw.eval) source

/-- Two evaluations end alike: in the same fault, or in values with the same content.  Along the way
the same numbers were drawn and the same impure functions called. -/
inductive SameEnd : Except Fault Value × Effects → Except Fault Value × Effects → Prop
  | values {v w : Value} {e f : Effects} : v.content = w.content → e.Agree f →
      SameEnd (.ok v, e) (.ok w, f)
  | faults {fault : Fault} {e f : Effects} : e.Agree f → SameEnd (.error fault, e) (.error fault, f)

theorem sameEnd_of_related {c d : Run Value}
    (h : Related Effects.Agree Run.Never (contentBlur store).Like c d) (e : Effects) :
    SameEnd (c.run e) (d.run e) := by
  have hp := h e e (.refl e)
  revert hp
  generalize c.run e = first, d.run e = second
  intro hp
  cases hp with
  | values hlike hlink => exact .values hlike hlink
  | faults hlink => exact .faults hlink
  | alone hx => exact hx.elim

/-- **A template cannot tell like contents apart.** -/
theorem evaluate_siblings {scope : Scope} (hparent : store.scope? parent = some scope)
    (h : v.content = w.content) (kind : BindingKind) (name source : String) (e : Effects) :
    let siblings := store.addSiblings parent kind name v w
    SameEnd ((Template.evaluate siblings.1 siblings.2.1 source).run e)
      ((Template.evaluate siblings.1 siblings.2.2 source).run e) := by
  obtain ⟨ha, hb⟩ := Store.bindsOne_addSiblings hparent kind name v w
  exact sameEnd_of_related (related_siblings ha hb h source) e

end

/-! ## Views and copies -/

/-- **A view is as good as a copy.**  Take a document, and arrays and maps that it was copied into.

Whatever was accessed before, of any view of the document, a path leads to a value that cannot be
told from the one that it leads to in the copy.  Taken again it gives the same view, whatever was
accessed in between, and makes no other.

And bound to a name in two children of one scope, the one to the view and the other one to the copy,
a template ends alike in both. -/
theorem view_as_good_as_copy {document : Json} (hdocument : document.isDocument = true) {copy : Value}
    (hcopy : copy.bare = copyJson 0 document) (store : Store) (ref : Ref) :
    (∀ (earlier : List (Handed × Selector)) (path : List Selector),
      let root := (Views.start document).1
      let result := ((Views.start document).2.after earlier).follow root path
      result.1.kind = (copy.follow store path).kind ∧
        Indistinct store (result.2.value ref result.1) (copy.follow store path) ∧
        ∀ later, (result.2.after later).follow root path = (result.1, result.2.after later)) ∧
    ∀ (parent : ScopeId) (kind : BindingKind) (name source : String) (e : Effects),
      (store.scope? parent).isSome = true →
      let view := ofJson ref document [] document
      let siblings := store.addSiblings parent kind name view copy
      SameEnd ((Template.evaluate siblings.1 siblings.2.1 source).run e)
        ((Template.evaluate siblings.1 siblings.2.2 source).run e) := by
  constructor
  · intro earlier path root result
    obtain ⟨hvalue, hkind, hagain⟩ := Views.follow_after document earlier path store ref
    have hindistinct := @indistinct_follow store document hdocument copy hcopy ref path
    exact ⟨hkind.trans hindistinct.kind, hvalue ▸ hindistinct, hagain⟩
  · intro parent kind name source e hparent view siblings
    obtain ⟨scope, hscope⟩ := Option.isSome_iff_exists.mp hparent
    exact evaluate_siblings hscope
      ((content_ofJson hdocument rfl).trans (content_of_bare hcopy).symm) kind name source e

/-- A document with keys that are written otherwise in a path. -/
def inventory : Json :=
  .object [("", .int 3), ("a/b", .array [.text "bolt", .object [("~0", .int 5), ("~1", .null)]])]

/-- The arrays and maps that it is copied into. -/
def inventoryCopy : Value :=
  .map 4 [("", .number (Number.ofInt 3)),
    ("a/b", .array 5 [.text "bolt", .map 6 [("~0", .number (Number.ofInt 5)), ("~1", .null)]])]

theorem view_as_good_as_copy_of_inventory :
    let root := (Views.start inventory).1
    let earlier : List (Handed × Selector) := [(root, .key "missing"), (root, .key "a/b")]
    let path : List Selector := [.key "a/b", .index 1, .key "~0"]
    let result := ((Views.start inventory).2.after earlier).follow root path
    let siblings := clock.addSiblings 0 .user "doc" (ofJson 3 inventory [] inventory) inventoryCopy
    let source := "$\x7bdoc['a/b'][1]\x7d"
    inventory.isDocument = true ∧ inventoryCopy.bare = copyJson 0 inventory ∧
      (clock.scope? 0).isSome = true ∧
      Indistinct clock (result.2.value 3 result.1) (inventoryCopy.follow clock path) ∧
      SameEnd ((Template.evaluate siblings.1 siblings.2.1 source).run (Effects.initial 1))
        ((Template.evaluate siblings.1 siblings.2.2 source).run (Effects.initial 1)) := by
  intro root earlier path result siblings source
  have hdocument : inventory.isDocument = true := by decide +kernel
  have hcopy : inventoryCopy.bare = copyJson 0 inventory := rfl
  obtain ⟨hwalk, htemplates⟩ := view_as_good_as_copy hdocument hcopy clock 3
  exact ⟨hdocument, hcopy, rfl, (hwalk earlier path).2.1,
    htemplates 0 .user "doc" source (Effects.initial 1) rfl⟩

end LiveTemplate
