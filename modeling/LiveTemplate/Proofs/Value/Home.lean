import LiveTemplate.Proofs.Template.Names
/-!
# Where symbols read

A symbol remembers the scope that owned its name when it was made.  Whoever looks for that scope later
has the name only, and a scope to look from.  The two may differ: a constant may hold an expression
that was made elsewhere, and from here a nearer scope may own the name.

Seen from a scope, a value is *at home* if no symbol that it leads to reads from another scope than the
one that owns its name from here.  No operator leads out of these values.  So if the constants that are seen from a
scope are at home, everything that is read there is at home: the symbols that reading itself makes
cannot be otherwise.

What a value leads to is more than what it contains.  From a map that stands for a scope one may select
whatever this scope binds, while a template is read.
-/

set_option autoImplicit false

namespace LiveTemplate

open Value
open Run (Ends Related)

namespace Value

variable {store : Store} {v w : Value}

/-! ## The names of the symbols -/

/-- Is this a symbol of the name? -/
def isSymbolOf (name : String) (v : Value) : Bool := v.symbolName? == some name

theorem sought_isSymbolOf (name : String) : Sought (isSymbolOf name) where
  single v hv := by cases v <;> trivial
  node _ _ _ _ := rfl

/-- The walk lists the names for which a search finds something. -/
theorem mem_listed_iff_finds (name : String) (v : Value) :
    name ∈ listed [] v ↔ finds (isSymbolOf name) v = true := by
  induction v using nested_induction with
  | atom v h =>
    cases v with
    | symbol ref scope other =>
      simp only [listed, walkExpanded, listName, symbolName?, Store.insertName, finds, isSymbolOf,
        List.mem_singleton, beq_iff_eq, Option.some.injEq]
      exact eq_comm
    | _ => first | exact h.elim | simp [listed, walkExpanded, listName, symbolName?, finds, isSymbolOf]
  | array ref items ih =>
    simp only [listed, walkExpanded, listName, symbolName?, finds, findsIn_eq_any]
    rw [if_neg (by simp), mem_walkItems_apart fun v _ => listsApart v]
    simp only [List.not_mem_nil, false_or, List.any_map, List.any_eq_true, Function.comp_def, id]
    exact exists_congr fun v => and_congr_right fun hv => ih v hv
  | map ref entries ih =>
    simp only [listed, walkExpanded, listName, symbolName?, finds, findsInEntries_eq_any]
    rw [if_neg (by simp), mem_walkEntries_apart fun entry _ => listsApart entry.2]
    simp only [List.not_mem_nil, false_or, List.any_map, List.any_eq_true, Function.comp_def, id]
    exact exists_congr fun entry => and_congr_right fun he => ih entry he
  | node ref op operands ih =>
    have hself : isSymbolOf name (node ref op operands) = false := rfl
    simp only [listed, walkExpanded, listName, symbolName?, finds, findsIn_eq_any, hself,
      Bool.false_or]
    rw [if_neg (by simp), mem_walkItems_apart fun v _ => listsApart v]
    simp only [List.not_mem_nil, false_or, List.any_map, List.any_eq_true, Function.comp_def, id]
    exact exists_congr fun v => and_congr_right fun hv => ih v hv
  | filter ref other properties _ =>
    simp [listed, walkExpanded, listName, symbolName?, finds, isSymbolOf]

/-- **The names of a value** are the names of the symbols that it contains, at any depth. -/
theorem mem_symbols_iff {name : String} :
    name ∈ v.symbols store ↔ ∃ ref scope, Contains store v (.symbol ref scope name) := by
  rw [symbols_eq_listed, mem_listed_iff_finds, ← Bool.not_eq_false, finds_expanded (sought_isSymbolOf name)]
  simp only [not_forall, Bool.not_eq_false]
  constructor
  · rintro ⟨w, hw, hsymbol⟩
    cases w with
    | symbol ref scope other =>
      obtain rfl : other = name := by simpa [isSymbolOf, symbolName?] using hsymbol
      exact ⟨ref, scope, hw⟩
    | _ => cases hsymbol
  · rintro ⟨ref, scope, hw⟩
    exact ⟨_, hw, by simp [isSymbolOf, symbolName?]⟩

/-! ## What a value leads to -/

/-- The value leads to the other one, through containers, what scopes bind, and operands. -/
inductive LeadsTo (store : Store) (v : Value) : Value → Prop
  | refl : LeadsTo store v v
  | item {w x : Value} : LeadsTo store v w → x ∈ w.items store → LeadsTo store v x
  | entry {w : Value} {entry : String × Value} :
      LeadsTo store v w → entry ∈ w.entries store → LeadsTo store v entry.2
  | operand {w x : Value} : LeadsTo store v w → x ∈ w.operands → LeadsTo store v x

theorem LeadsTo.trans {x : Value} (h : LeadsTo store v w) (k : LeadsTo store w x) :
    LeadsTo store v x := by
  induction k with
  | refl => exact h
  | item _ hx ih => exact ih.item hx
  | entry _ he ih => exact ih.entry he
  | operand _ hx ih => exact ih.operand hx

theorem Contains.leadsTo (h : Contains store v w) : LeadsTo store v w := by
  induction h with
  | refl => exact .refl
  | item _ hx ih => exact ih.item hx
  | entry _ _ he ih => exact ih.entry he
  | operand _ hx ih => exact ih.operand hx

/-- What a value leads to is itself, or a part of it leads there. -/
theorem leadsTo_cases (h : LeadsTo store v w) :
    w = v ∨ (∃ x ∈ v.items store, LeadsTo store x w) ∨
      (∃ entry ∈ v.entries store, LeadsTo store entry.2 w) ∨ ∃ x ∈ v.operands, LeadsTo store x w := by
  induction h with
  | refl => exact .inl rfl
  | item _ hx ih =>
    rcases ih with rfl | ⟨y, hy, hw⟩ | ⟨entry, he, hw⟩ | ⟨y, hy, hw⟩
    · exact .inr (.inl ⟨_, hx, .refl⟩)
    · exact .inr (.inl ⟨y, hy, hw.item hx⟩)
    · exact .inr (.inr (.inl ⟨entry, he, hw.item hx⟩))
    · exact .inr (.inr (.inr ⟨y, hy, hw.item hx⟩))
  | entry _ hx ih =>
    rcases ih with rfl | ⟨y, hy, hw⟩ | ⟨entry, he, hw⟩ | ⟨y, hy, hw⟩
    · exact .inr (.inr (.inl ⟨_, hx, .refl⟩))
    · exact .inr (.inl ⟨y, hy, hw.entry hx⟩)
    · exact .inr (.inr (.inl ⟨entry, he, hw.entry hx⟩))
    · exact .inr (.inr (.inr ⟨y, hy, hw.entry hx⟩))
  | operand _ hx ih =>
    rcases ih with rfl | ⟨y, hy, hw⟩ | ⟨entry, he, hw⟩ | ⟨y, hy, hw⟩
    · exact .inr (.inr (.inr ⟨_, hx, .refl⟩))
    · exact .inr (.inl ⟨y, hy, hw.operand hx⟩)
    · exact .inr (.inr (.inl ⟨entry, he, hw.operand hx⟩))
    · exact .inr (.inr (.inr ⟨y, hy, hw.operand hx⟩))

end Value

/-! ## Where a symbol reads -/

namespace Store

variable {store : Store} {id owner : ScopeId} {name : String}

/-- A symbol that was made in the first scope reads what the second one binds to its name. -/
def ReadsFrom (store : Store) (id : ScopeId) (name : String) (owner : ScopeId) : Prop :=
  store.isLive id = true ∧ ∃ binding, store.owned? id name = some (owner, binding)

/-- It finds what is bound there; and it finds null if it reads from nowhere. -/
theorem seen_cases (store : Store) (id : ScopeId) (name : String) :
    (∃ owner binding, store.ReadsFrom id name owner ∧
      store.ownBinding? owner name = some binding ∧ store.seen id name = binding.value) ∨
    ((∀ owner, ¬store.ReadsFrom id name owner) ∧ store.seen id name = .null) := by
  cases hlive : store.isLive id with
  | false =>
    refine .inr ⟨fun owner hreads => ?_, by simp [seen, hlive]⟩
    rw [hreads.1] at hlive
    cases hlive
  | true =>
    cases howned : store.owned? id name with
    | none =>
      refine .inr ⟨fun owner hreads => ?_, by simp [seen, hlive, get_of_not_owned? howned]⟩
      obtain ⟨-, binding, hfound⟩ := hreads
      rw [howned] at hfound
      cases hfound
    | some found =>
      obtain ⟨owner, binding⟩ := found
      refine .inl ⟨owner, binding, ⟨hlive, binding, howned⟩, ownBinding?_of_owned? howned, ?_⟩
      simp [seen, hlive, get_of_owned? howned]

/-- Every scope comes first in its own lineage. -/
def Rooted (store : Store) : Prop :=
  ∀ {id : ScopeId} {found : Scope}, store.scope? id = some found → ∃ rest, found.lineage = id :: rest

/-- A scope owns, as seen from itself, what it binds. -/
theorem Rooted.owned_own (h : store.Rooted) {binding : Binding}
    (hown : store.ownBinding? owner name = some binding) :
    store.owned? owner name = some (owner, binding) := by
  obtain ⟨found, hscope, -⟩ := scope?_of_ownBinding? hown
  obtain ⟨rest, hlineage⟩ := h hscope
  simp [owned?, lineage, hscope, hlineage, hown]

end Store

/-! ## At home -/

namespace Value

variable {store : Store} {scope : ScopeId} {v w : Value}

/-- Seen from the scope, no symbol that the value leads to reads from another scope than the owner of
its name. -/
def AtHome (store : Store) (scope : ScopeId) (v : Value) : Prop :=
  ∀ ref other name owner, LeadsTo store v (.symbol ref other name) →
    store.ReadsFrom other name owner → store.concerned scope name = owner

theorem AtHome.led (h : AtHome store scope v) (hw : LeadsTo store v w) : AtHome store scope w :=
  fun ref other name owner hsymbol => h ref other name owner (hw.trans hsymbol)

/-- A value that is no symbol is at home if its parts are. -/
theorem atHome_intro (hv : v.symbolName? = none) (hitems : ∀ w ∈ v.items store, AtHome store scope w)
    (hentries : ∀ entry ∈ v.entries store, AtHome store scope entry.2)
    (hoperands : ∀ w ∈ v.operands, AtHome store scope w) : AtHome store scope v := by
  intro ref other name owner hsymbol
  rcases leadsTo_cases hsymbol with rfl | ⟨x, hx, hw⟩ | ⟨entry, he, hw⟩ | ⟨x, hx, hw⟩
  · cases hv
  · exact hitems x hx ref other name owner hw
  · exact hentries entry he ref other name owner hw
  · exact hoperands x hx ref other name owner hw

/-- A symbol leads to nothing but itself. -/
theorem atHome_symbol {ref : Ref} {id : ScopeId} {name : String}
    (h : ∀ owner, store.ReadsFrom id name owner → store.concerned scope name = owner) :
    AtHome store scope (.symbol ref id name) := by
  intro ref' other name' owner hsymbol
  rcases leadsTo_cases hsymbol with heq | ⟨_, hx, -⟩ | ⟨_, he, -⟩ | ⟨_, hx, -⟩
  · obtain ⟨-, rfl, rfl⟩ := Value.symbol.inj heq
    exact h owner
  · cases hx
  · cases he
  · cases hx

theorem atHome_inline (hv : v.kind.isInline = true) : AtHome store scope v := by
  obtain ⟨hitems, hentries⟩ := parts_inline store hv
  refine atHome_intro ?_ (by simp [hitems]) (by simp [hentries]) ?_
  · cases v <;> first | rfl | cases hv
  · cases v with
    | node => cases hv
    | _ => exact fun _ hw => nomatch hw

/-- **No operator leads out of the values that are at home.** -/
theorem closed_atHome (store : Store) (scope : ScopeId) : Closed store (AtHome store scope) where
  scalar _ hv := atHome_inline hv
  items _ h _ hx := h.led (LeadsTo.refl.item hx)
  entries _ h _ he := h.led (LeadsTo.refl.entry he)
  array _ _ h := atHome_intro rfl h (fun _ he => nomatch he) fun _ hw => nomatch hw
  map _ _ h := atHome_intro rfl (fun _ hw => nomatch hw) h fun _ hw => nomatch hw

/-- A plain value leads to no symbol, and so it is at home everywhere. -/
theorem Plain.atHome (h : Plain store v) : AtHome store scope v := by
  have hreaches : ∀ w, LeadsTo store v w → Reaches store v w := by
    intro w hw
    induction hw with
    | refl => exact .refl
    | item _ hx ih => exact ih.item hx
    | entry _ he ih => exact ih.entry he
    | @operand w x _ hx ih =>
      have hevaluable := (h w ih).1
      cases w with
      | node => cases hevaluable
      | _ => cases hx
  intro ref other name owner hsymbol
  cases (h _ (hreaches _ hsymbol)).1

end Value

/-! ## What reading makes -/

section

variable {store : Store} {scope : ScopeId}

theorem Operator.build_atHome (op : Operator) {operands : List Value}
    (h : ∀ v ∈ operands, AtHome store scope v) :
    Ends (AtHome store scope) Fault.IsOverflow (op.build store operands) := by
  unfold Operator.build
  split
  · next hconstant =>
    refine apply_closed (closed_atHome store scope) op fun v hv => ?_
    rw [eval_eq_pure (Operator.free_of_isConstant hconstant v hv)]
    exact .pure (h v hv)
  · refine Ends.fresh.bind fun ref _ => .pure (atHome_intro rfl ?_ ?_ h)
    · exact fun _ hw => nomatch hw
    · exact fun _ he => nomatch he

namespace Store

/-- The constants that are seen from the scope are at home. -/
def HomeConstants (store : Store) (scope : ScopeId) : Prop :=
  ∀ name binding, store.binding? scope name = some binding → binding.kind = .constant →
    AtHome store scope binding.value

/-- Plain constants are at home wherever they are seen. -/
theorem PlainConstants.atHome (h : store.PlainConstants scope) : store.HomeConstants scope :=
  fun name binding hbinding hkind => (h name binding hbinding hkind).atHome

/-- One more value is at home where all the others are plain. -/
theorem Orderly.homeConstants_bind (h : store.Orderly) {id : ScopeId} {name : String} {binding : Binding}
    (hvalue : AtHome (store.bind id name binding) scope binding.value) :
    (store.bind id name binding).HomeConstants scope := by
  intro name' found hfound hkind
  obtain ⟨⟨owner, bound⟩, howned, rfl⟩ := Option.map_eq_some_iff.mp hfound
  have hown := ownBinding?_of_owned? howned
  by_cases hsame : owner = id ∧ name' = name
  · obtain ⟨rfl, rfl⟩ := hsame
    obtain ⟨scope, hs, -⟩ := scope?_of_ownBinding? hown
    rw [scope?_bind] at hs
    obtain ⟨old, hold, -⟩ := Option.map_eq_some_iff.mp hs
    rw [ownBinding?_bind_self store _ _ _ hold] at hown
    obtain rfl : binding = bound := Option.some.inj hown
    exact hvalue
  · rw [ownBinding?_bind_other store binding (not_and_or.mp hsame)] at hown
    exact ((h.plain hown).congr (cells_bind store id name binding).symm).atHome

end Store

namespace Template

theorem assures_atHome (hrooted : store.Rooted) (hconstants : store.HomeConstants scope) :
    Assures store scope (AtHome store scope) where
  inline _ hv := atHome_inline hv
  constant howned := hconstants _ _ (Store.binding?_of_owned? howned) rfl
  symbol _ howned := by
    refine atHome_symbol ?_
    rintro other ⟨-, other', hother⟩
    have hself := hrooted.owned_own (Store.ownBinding?_of_owned? howned)
    obtain ⟨rfl, -⟩ := Prod.mk.inj (Option.some.inj (hself.symm.trans hother))
    simp [Store.concerned_eq, howned]
  build op _ hall := (Operator.build_atHome op hall).mono (fun _ hv => hv) fun _ _ => trivial

/-- **What is read is at home**, if the constants are that it may mention. -/
theorem read_atHome (hrooted : store.Rooted) (hconstants : store.HomeConstants scope)
    (source : String) : Ends (fun result => ∀ v, result = .ok v → AtHome store scope v)
      (fun _ => True) (read store scope source) := (assures_atHome hrooted hconstants).read source

end Template

end

end LiveTemplate
