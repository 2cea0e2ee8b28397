import LiveTemplate.Proofs.Value.Content
/-!
# What views remember makes no difference

However often a view is asked, and whatever other views of the document were asked before, it
answers what the document and its path say.  And it answers with the same view each time.

Both follow from two facts about a single access.  It keeps the views *sound*: what is remembered
for a child is what would be handed out for it now.  And the views only *grow*: none moves to another
place or another path, and nothing that is remembered is forgotten.
-/

set_option autoImplicit false

namespace LiveTemplate

open Value

/-! ## What a view remembers -/

namespace View

theorem remembered_remember_self (view : View) (handed : Handed) (access : Selector) :
    (view.remember handed access).remembered? access = some handed := by
  cases access with
  | key name => simp [remember, remembered?, Json.lookup?]
  | index i =>
    have hlt : i < (view.elements ++ List.replicate (i + 1 - view.elements.length) none).length := by
      rw [List.length_append, List.length_replicate]
      omega
    simp only [remember, remembered?, place, List.getElem?_set_self hlt, Option.join_some]

/-- Remembering a child leaves alone what is remembered of others. -/
theorem remembered_remember_other (view : View) (handed : Handed) {access other : Selector}
    (h : other ≠ access) : (view.remember handed access).remembered? other = view.remembered? other := by
  rcases access with name | i <;> rcases other with name' | j
  · have hname : (name == name') = false := by
      rw [beq_eq_false_iff_ne]
      rintro rfl
      exact h rfl
    simp [remember, remembered?, Json.lookup?, hname]
  · rfl
  · rfl
  · have hij : i ≠ j := fun hij => h (hij ▸ rfl)
    simp only [remember, remembered?, place, List.getElem?_set_ne hij]
    by_cases hlt : j < view.elements.length
    · rw [List.getElem?_append_left hlt]
    · have hle := Nat.le_of_not_lt hlt
      rw [List.getElem?_append_right hle, List.getElem?_eq_none hle, List.getElem?_replicate]
      split <;> rfl

/-- A new view remembers nothing. -/
theorem remembered_new (path : List Char) (access : Selector) :
    (⟨path, [], []⟩ : View).remembered? access = none := by cases access <;> rfl

theorem path_remember (view : View) (handed : Handed) (access : Selector) :
    (view.remember handed access).path = view.path := by cases access <;> rfl

end View

namespace Views

variable {views views' : Views} {document : Json} {ref : Ref}

/-! ## Sound views -/

/-- The kind of view that is made for a container. -/
def kindOf : Json → Kind
  | .array _ => .array
  | _ => .map

/-- This is handed out for a place in the document: the scalar there, or a view with this path. -/
inductive Hands (views : Views) (path : List Char) (node : Json) : Handed → Prop
  | scalar : node.isContainer = false →
      Hands views path node (.scalar (ofJson 0 views.document path node))
  | view {place : Nat} {view : View} : node.isContainer = true → views.made[place]? = some view →
      view.path = path → Hands views path node (.view (kindOf node) place)

/-- A view is at a container, and it remembers what is handed out for its children. -/
structure SoundAt (views : Views) (view : View) : Prop where
  container : (shown views.document view.path).isContainer = true
  remembers : ∀ {access : Selector} {handed : Handed}, view.remembered? access = some handed →
    ∃ node, access.child? (shown views.document view.path) = some node ∧
      Hands views (Pointer.extend view.path access.step) node handed

/-- All views are sound. -/
def Sound (views : Views) : Prop :=
  ∀ (place : Nat) (view : View), views.made[place]? = some view → SoundAt views view

/-- What was handed out is a scalar, or a view that was made. -/
inductive Valid (views : Views) : Handed → Prop
  | scalar {value : Value} : value.kind.isInline = true → Valid views (.scalar value)
  | view {place : Nat} {view : View} : views.made[place]? = some view →
      Valid views (.view (kindOf (shown views.document view.path)) place)

/-! ## Growing views -/

/-- Views were added, and more is remembered. -/
structure Grown (views views' : Views) : Prop where
  document : views'.document = views.document
  made : ∀ {place : Nat} {view : View}, views.made[place]? = some view →
    ∃ view', views'.made[place]? = some view' ∧ view'.path = view.path ∧
      ∀ access handed, view.remembered? access = some handed → view'.remembered? access = some handed

theorem Grown.refl (views : Views) : Grown views views := ⟨rfl, fun h => ⟨_, h, rfl, fun _ _ => id⟩⟩

theorem Grown.trans {views'' : Views} (h : Grown views views') (k : Grown views' views'') :
    Grown views views'' where
  document := k.document.trans h.document
  made hview := by
    obtain ⟨view', hview', hpath', hremembered'⟩ := h.made hview
    obtain ⟨view'', hview'', hpath'', hremembered''⟩ := k.made hview'
    exact ⟨view'', hview'', hpath''.trans hpath', fun access handed hh =>
      hremembered'' access handed (hremembered' access handed hh)⟩

theorem Hands.grown {path : List Char} {node : Json} {handed : Handed} (h : Hands views path node handed)
    (hgrown : Grown views views') : Hands views' path node handed := by
  cases h with
  | scalar hnode => rw [← hgrown.document]; exact .scalar hnode
  | view hnode hview hpath =>
    obtain ⟨view', hview', hpath', -⟩ := hgrown.made hview
    exact .view hnode hview' (hpath'.trans hpath)

/-- What is handed out for a place, as a value. -/
theorem Hands.value {path : List Char} {node : Json} {handed : Handed}
    (h : Hands views path node handed) : views.value ref handed = ofJson ref views.document path node := by
  cases h with
  | scalar hnode => rw [ofJson_scalar 0 _ _ 0 hnode, ofJson_scalar ref _ _ 0 hnode]; rfl
  | @view place view hnode hview hpath =>
    simp only [Views.value, hview, hpath]
    exact (ofJson_container ref views.document path hnode).symm

theorem Hands.valid {path : List Char} {node : Json} {handed : Handed}
    (h : Hands views path node handed) (hshown : shown views.document path = node) :
    Valid views handed := by
  cases h with
  | scalar hnode =>
    refine .scalar ?_
    rw [ofJson_scalar 0 _ _ 0 hnode]
    exact copyJson_scalar 0 hnode
  | view hnode hview hpath =>
    rw [← hshown, ← hpath]
    exact .view hview

theorem Valid.grown {handed : Handed} (h : Valid views handed) (hgrown : Grown views views') :
    Valid views' handed := by
  cases h with
  | scalar hinline => exact .scalar hinline
  | view hview =>
    obtain ⟨view', hview', hpath, -⟩ := hgrown.made hview
    rw [← hgrown.document, ← hpath]
    exact .view hview'

/-- What was handed out stays the same value. -/
theorem Valid.value_grown {handed : Handed} (h : Valid views handed) (hgrown : Grown views views') :
    views'.value ref handed = views.value ref handed := by
  cases h with
  | scalar => rfl
  | view hview =>
    obtain ⟨view', hview', hpath, -⟩ := hgrown.made hview
    simp only [Views.value, hview, hview', hpath, hgrown.document]

/-- The kind that was handed out is the kind of the value. -/
theorem Valid.kind {handed : Handed} (hvalid : Valid views handed) (h : Sound views) :
    handed.kind = (views.value ref handed).kind := by
  cases hvalid with
  | scalar => rfl
  | @view place view hview =>
    have hcontainer := (h place view hview).container
    simp only [Views.value, hview, Handed.kind, Value.kind]
    revert hcontainer
    cases shown views.document view.path <;> first | exact fun _ => rfl | exact nofun

theorem SoundAt.grown {view : View} (h : SoundAt views view) (hgrown : Grown views views') :
    SoundAt views' view where
  container := by rw [hgrown.document]; exact h.container
  remembers hremembered := by
    obtain ⟨node, hnode, hhands⟩ := h.remembers hremembered
    rw [hgrown.document]
    exact ⟨node, hnode, hhands.grown hgrown⟩

/-! ## One view more -/

theorem add_made {place : Nat} {view : View} (h : views.made[place]? = some view) (path : List Char) :
    (views.add path).made[place]? = some view :=
  (List.getElem?_append_left (List.getElem?_eq_some_iff.mp h).1).trans h

theorem add_grown (views : Views) (path : List Char) : Grown views (views.add path) where
  document := rfl
  made hview := ⟨_, add_made hview path, rfl, fun _ _ => id⟩

theorem add_sound (h : Sound views) {path : List Char}
    (hcontainer : (shown views.document path).isContainer = true) : Sound (views.add path) := by
  intro place view hview
  rcases Nat.lt_or_ge place views.made.length with hlt | hle
  · rw [add, List.getElem?_append_left hlt] at hview
    exact (h place view hview).grown (add_grown views path)
  · rw [add, List.getElem?_append_right hle, List.getElem?_singleton] at hview
    split at hview
    · obtain rfl := Option.some.inj hview
      exact ⟨hcontainer, fun hremembered => by rw [View.remembered_new] at hremembered; cases hremembered⟩
    · cases hview

theorem make_made {place : Nat} {view : View} (h : views.made[place]? = some view) (path : List Char)
    (node : Json) : (views.make path node).2.made[place]? = some view := by
  cases node <;> first | exact h | exact add_made h path

theorem make_grown (views : Views) (path : List Char) (node : Json) :
    Grown views (views.make path node).2 := by
  cases node <;> first | exact .refl views | exact add_grown views path

theorem make_sound (h : Sound views) {path : List Char} {node : Json}
    (hshown : shown views.document path = node) : Sound (views.make path node).2 := by
  cases node with
  | array items => exact add_sound h (by rw [hshown]; rfl)
  | object fields => exact add_sound h (by rw [hshown]; rfl)
  | _ => exact h

theorem make_hands (views : Views) (path : List Char) (node : Json) :
    Hands (views.make path node).2 path node (views.make path node).1 := by
  have hlast : (views.made ++ [⟨path, [], []⟩])[views.made.length]? = some ⟨path, [], []⟩ := by simp
  cases node with
  | array items => exact .view rfl hlast rfl
  | object fields => exact .view rfl hlast rfl
  | _ => exact .scalar rfl

/-! ## One child more that is remembered -/

theorem remember_other {place place' : Nat} (h : place ≠ place') (handed : Handed) (access : Selector) :
    (views.remember place handed access).made[place']? = views.made[place']? :=
  List.getElem?_modify_ne _ _ h

section

variable {place : Nat} {view : View} {access : Selector} {handed : Handed}
  (hview : views.made[place]? = some view)

include hview

theorem remember_made : (views.remember place handed access).made[place]?
    = some (view.remember handed access) := by
  rw [remember, List.getElem?_modify_eq, hview]
  rfl

theorem remember_grown (hfresh : view.remembered? access = none) :
    Grown views (views.remember place handed access) where
  document := rfl
  made {place' view'} hview' := by
    by_cases hplace : place = place'
    · subst hplace
      obtain rfl : view = view' := Option.some.inj (hview.symm.trans hview')
      refine ⟨_, remember_made hview, View.path_remember view handed access, fun other handed' hh => ?_⟩
      rw [View.remembered_remember_other]
      · exact hh
      · rintro rfl
        rw [hfresh] at hh
        cases hh
    · refine ⟨view', ?_, rfl, fun _ _ => id⟩
      rw [remember_other hplace]
      exact hview'

theorem remember_sound (h : Sound views) (hfresh : view.remembered? access = none) {node : Json}
    (hnode : access.child? (shown views.document view.path) = some node)
    (hhands : Hands views (Pointer.extend view.path access.step) node handed) :
    Sound (views.remember place handed access) := by
  have hgrown : Grown views (views.remember place handed access) := remember_grown hview hfresh
  intro place' view' hview'
  by_cases hplace : place = place'
  · subst hplace
    rw [remember_made hview] at hview'
    obtain rfl := Option.some.inj hview'
    have hold := (h place view hview).grown hgrown
    have hpath := View.path_remember view handed access
    refine ⟨hpath ▸ hold.container, fun {other handed'} hremembered => ?_⟩
    rw [hpath]
    by_cases hother : other = access
    · subst hother
      rw [View.remembered_remember_self] at hremembered
      obtain rfl := Option.some.inj hremembered
      exact ⟨node, hnode, hhands.grown hgrown⟩
    · rw [View.remembered_remember_other _ _ hother] at hremembered
      exact hold.remembers hremembered
  · rw [remember_other hplace] at hview'
    exact (h place' view' hview').grown hgrown

end

/-! ## One access -/

/-- What an access gives and leaves behind: a step lemma for all that follows. -/
inductive Answers (views : Views) (place : Nat) (view : View) (access : Selector) : Handed × Views → Prop
  /-- There is no such child. -/
  | missing : access.child? (shown views.document view.path) = none →
      Answers views place view access (.scalar .null, views)
  /-- The child was asked for before. -/
  | again {handed : Handed} : view.remembered? access = some handed →
      Answers views place view access (handed, views)
  /-- The child is asked for the first time. -/
  | first {node : Json} : view.remembered? access = none →
      access.child? (shown views.document view.path) = some node →
      Answers views place view access (views.first place view access node)

theorem access_answers {place : Nat} {view : View} (hview : views.made[place]? = some view) (kind : Kind)
    (access : Selector) : Answers views place view access (views.access (.view kind place) access) := by
  cases access with
  | key name =>
    show Answers _ _ _ _ (views.field place name)
    unfold field
    rw [hview]
    dsimp only
    split
    · next hremembered => exact .again hremembered
    · next hfresh =>
      split
      · next hnode => exact .missing hnode
      · next hnode => exact .first hfresh hnode
  | index i =>
    show Answers _ _ _ _ (views.item place i)
    unfold item
    rw [hview]
    dsimp only
    split
    · next hnode => exact .missing hnode
    · next hnode =>
      split
      · next hremembered => exact .again hremembered
      · next hfresh => exact .first hfresh hnode

theorem access_of_not_made {place : Nat} (hview : views.made[place]? = none) (kind : Kind)
    (access : Selector) : views.access (.view kind place) access = (.scalar .null, views) := by
  cases access <;> simp only [Views.access, field, item, hview]

namespace Answers

variable {place : Nat} {view : View} {access : Selector} {result : Handed × Views}
  (ha : Answers views place view access result) (hview : views.made[place]? = some view)

include ha hview

theorem grown : Grown views result.2 := by
  cases ha with
  | missing => exact .refl views
  | again => exact .refl views
  | @first node hfresh _ =>
    have hmade := make_made hview (Pointer.extend view.path access.step) node
    exact (make_grown views _ node).trans (remember_grown hmade hfresh)

theorem sound (h : Sound views) : Sound result.2 := by
  cases ha with
  | missing => exact h
  | again => exact h
  | @first node hfresh hnode =>
    have hmade := make_made hview (Pointer.extend view.path access.step) node
    have hdocument := (make_grown views (Pointer.extend view.path access.step) node).document
    have hchild := hdocument.symm ▸ hnode
    exact remember_sound hmade (make_sound h (shown_child hnode)) hfresh hchild
      (make_hands views _ node)

/-- What is given: null if there is no such child, and what is handed out for it otherwise, which is
then remembered. -/
theorem given (h : Sound views) :
    (access.child? (shown views.document view.path) = none ∧ result.1 = .scalar .null) ∨
    ∃ node view', access.child? (shown views.document view.path) = some node ∧
      Hands result.2 (Pointer.extend view.path access.step) node result.1 ∧
      result.2.made[place]? = some view' ∧ view'.remembered? access = some result.1 := by
  cases ha with
  | missing hnode => exact .inl ⟨hnode, rfl⟩
  | again hremembered =>
    obtain ⟨node, hnode, hhands⟩ := (h place view hview).remembers hremembered
    exact .inr ⟨node, view, hnode, hhands, hview, hremembered⟩
  | @first node hfresh hnode =>
    have hmade := make_made hview (Pointer.extend view.path access.step) node
    refine .inr ⟨node, _, hnode, ?_, remember_made hmade, View.remembered_remember_self _ _ _⟩
    exact (make_hands views _ node).grown (remember_grown hmade hfresh)

end Answers

/-! ## Any access -/

theorem access_grown (views : Views) (handed : Handed) (access : Selector) :
    Grown views (views.access handed access).2 := by
  cases handed with
  | scalar => exact .refl views
  | view kind place =>
    cases hview : views.made[place]? with
    | none => rw [access_of_not_made hview]; exact .refl views
    | some view => exact (access_answers hview kind access).grown hview

theorem access_sound (h : Sound views) (handed : Handed) (access : Selector) :
    Sound (views.access handed access).2 := by
  cases handed with
  | scalar => exact h
  | view kind place =>
    cases hview : views.made[place]? with
    | none => rw [access_of_not_made hview]; exact h
    | some view => exact (access_answers hview kind access).sound hview h

theorem after_grown (views : Views) (accesses : List (Handed × Selector)) :
    Grown views (views.after accesses) := by
  induction accesses generalizing views with
  | nil => exact .refl views
  | cons made rest ih => exact (access_grown views made.1 made.2).trans (ih _)

theorem after_sound (h : Sound views) (accesses : List (Handed × Selector)) :
    Sound (views.after accesses) := by
  induction accesses generalizing views with
  | nil => exact h
  | cons made rest ih => exact ih (access_sound h made.1 made.2)

/-- What a view shows one step down. -/
theorem access_view (store : Store) (ref : Ref) (document : Json) (path : List Char) (access : Selector) :
    (Value.view ref document path).access store access
      = match access.child? (shown document path) with
        | some child => ofJson ref document (Pointer.extend path access.step) child
        | none => .null := by
  cases access with
  | key name =>
    show Value.field store name _ = _
    cases hshown : shown document path with
    | object fields =>
      simp only [Value.field, Value.entries, hshown, Selector.child?, Selector.step]
      rw [Json.lookup_map_named fun key child =>
        ofJson ref document (Pointer.extend path key.toList) child]
      cases Json.lookup? name fields <;> rfl
    | _ => simp only [Value.field, Value.entries, hshown, Selector.child?]; rfl
  | index i =>
    show Value.item store i _ = _
    cases hshown : shown document path with
    | array items =>
      simp only [Value.item, Value.items, hshown, Selector.child?, Selector.step, List.getElem?_mapIdx]
      cases items[i]? <;> rfl
    | _ => simp only [Value.item, Value.items, hshown, Selector.child?]; rfl

theorem access_inline (store : Store) {v : Value} (h : v.kind.isInline = true) (access : Selector) :
    v.access store access = .null := by
  obtain ⟨hitems, hentries⟩ := parts_inline store h
  cases access with
  | key name => simp [Value.access, Value.field, hentries, Json.lookup?]
  | index i => simp [Value.access, Value.item, hitems]

section

variable (h : Sound views) {handed : Handed} (hvalid : Valid views handed) (access : Selector)

include h hvalid

theorem access_valid : Valid (views.access handed access).2 (views.access handed access).1 := by
  cases hvalid with
  | scalar => exact .scalar rfl
  | @view place view hview =>
    have hgrown := access_grown views (.view (kindOf (shown views.document view.path)) place) access
    rcases (access_answers hview _ access).given hview h with ⟨-, hnull⟩ | ⟨child, -, hchild, hhands, -⟩
    · rw [hnull]
      exact .scalar rfl
    · refine hhands.valid ?_
      rw [hgrown.document]
      exact shown_child hchild

/-- An access gives what the value one step down is. -/
theorem access_value (store : Store) (ref : Ref) :
    (views.access handed access).2.value ref (views.access handed access).1
      = (views.value ref handed).access store access := by
  cases hvalid with
  | scalar hinline => exact (access_inline store hinline access).symm
  | @view place view hview =>
    have hgrown := access_grown views (.view (kindOf (shown views.document view.path)) place) access
    have hvalue : views.value ref (.view (kindOf (shown views.document view.path)) place)
        = .view ref views.document view.path := by simp only [Views.value, hview]
    rw [hvalue, access_view]
    rcases (access_answers hview _ access).given hview h with
      ⟨hchild, hnull⟩ | ⟨child, -, hchild, hhands, -⟩
    · rw [hchild, hnull]
      rfl
    · rw [hchild, hhands.value, hgrown.document]

/-- Made again, whatever was accessed in between, an access gives the same. -/
theorem access_again (hgrown : Grown (views.access handed access).2 views') (h' : Sound views') :
    views'.access handed access = ((views.access handed access).1, views') := by
  cases hvalid with
  | scalar => rfl
  | @view place view hview =>
    have hfirst := access_answers hview (kindOf (shown views.document view.path)) access
    have hall := (access_grown views _ access).trans hgrown
    obtain ⟨later, hlater, hpath, -⟩ := hall.made hview
    have hsecond := access_answers hlater (kindOf (shown views.document view.path)) access
    have hshown : shown views'.document later.path = shown views.document view.path := by
      rw [hall.document, hpath]
    revert hsecond
    generalize views'.access _ access = second
    intro hsecond
    rcases hfirst.given hview h with ⟨hchild, hnull⟩ | ⟨child, remembering, hchild, -, hmade, hremembered⟩
    · -- there is no such child, and none was remembered since
      rw [hnull]
      cases hsecond with
      | missing => rfl
      | again hremembered =>
        obtain ⟨node, hnode, -⟩ := (h' place later hlater).remembers hremembered
        rw [hshown, hchild] at hnode
        cases hnode
      | first _ hnode =>
        rw [hshown, hchild] at hnode
        cases hnode
    · -- the child was remembered, and still is
      obtain ⟨later', hlater', -, hkept⟩ := hgrown.made hmade
      obtain rfl : later = later' := Option.some.inj (hlater.symm.trans hlater')
      have hstill := hkept _ _ hremembered
      cases hsecond with
      | missing hnode =>
        rw [hshown, hchild] at hnode
        cases hnode
      | again hremembered' =>
        rw [Option.some.inj (hremembered'.symm.trans hstill)]
      | first hfresh =>
        rw [hstill] at hfresh
        cases hfresh

end

/-! ## Any path -/

theorem follow_grown (views : Views) (handed : Handed) (path : List Selector) :
    Grown views (views.follow handed path).2 := by
  induction path generalizing views handed with
  | nil => exact .refl views
  | cons access rest ih => exact (access_grown views handed access).trans (ih _ _)

theorem follow_sound (h : Sound views) (handed : Handed) (path : List Selector) :
    Sound (views.follow handed path).2 := by
  induction path generalizing views handed with
  | nil => exact h
  | cons access rest ih => exact ih (access_sound h handed access) _

theorem follow_valid (h : Sound views) {handed : Handed} (hvalid : Valid views handed)
    (path : List Selector) : Valid (views.follow handed path).2 (views.follow handed path).1 := by
  induction path generalizing views handed with
  | nil => exact hvalid
  | cons access rest ih => exact ih (access_sound h handed access) (access_valid h hvalid access)

theorem follow_value (h : Sound views) {handed : Handed} (hvalid : Valid views handed)
    (path : List Selector) (store : Store) (ref : Ref) :
    (views.follow handed path).2.value ref (views.follow handed path).1
      = (views.value ref handed).follow store path := by
  induction path generalizing views handed with
  | nil => rfl
  | cons access rest ih =>
    rw [Value.follow, List.foldl_cons, ← access_value h hvalid access store ref]
    exact ih (access_sound h handed access) (access_valid h hvalid access)

theorem follow_again (h : Sound views) {handed : Handed} (hvalid : Valid views handed)
    (path : List Selector) (hgrown : Grown (views.follow handed path).2 views') (h' : Sound views') :
    views'.follow handed path = ((views.follow handed path).1, views') := by
  induction path generalizing views handed with
  | nil => rfl
  | cons access rest ih =>
    have hagain := access_again h hvalid access ((follow_grown _ _ rest).trans hgrown) h'
    show (views'.access handed access).2.follow (views'.access handed access).1 rest = _
    rw [hagain]
    exact ih (access_sound h handed access) (access_valid h hvalid access) hgrown

/-! ## The views of a document -/

theorem start_sound (document : Json) : Sound (start document).2 :=
  make_sound (fun _ _ h => by simp at h) (by cases document <;> rfl)

theorem start_valid (document : Json) : Valid (start document).2 (start document).1 :=
  (make_hands ⟨document, []⟩ [] document).valid (by cases document <;> rfl)

theorem start_value (document : Json) (ref : Ref) :
    (start document).2.value ref (start document).1 = ofJson ref document [] document := by
  rw [start, (make_hands ⟨document, []⟩ [] document).value]
  cases document <;> rfl

/-- **What is handed out along a path does not depend on earlier accesses.**  It is what the path
leads to, and taking the path again gives the same and makes nothing. -/
theorem follow_after (document : Json) (earlier : List (Handed × Selector)) (path : List Selector)
    (store : Store) (ref : Ref) :
    let root := (start document).1
    let result := ((start document).2.after earlier).follow root path
    let place := (ofJson ref document [] document).follow store path
    result.2.value ref result.1 = place ∧ result.1.kind = place.kind ∧
      ∀ later, (result.2.after later).follow root path = (result.1, result.2.after later) := by
  intro root result place
  have hgrown := after_grown (start document).2 earlier
  have hsound := after_sound (start_sound document) earlier
  have hvalid := (start_valid document).grown hgrown
  have hresult : Sound result.2 := follow_sound hsound root path
  have hvalue : result.2.value ref result.1 = place := by
    rw [follow_value hsound hvalid path store ref, (start_valid document).value_grown hgrown, start_value]
  refine ⟨hvalue, ?_, fun later => ?_⟩
  · rw [← hvalue]
    exact (follow_valid hsound hvalid path).kind hresult
  · exact follow_again hsound hvalid path (after_grown result.2 later) (after_sound hresult later)

end Views

end LiveTemplate
