import LiveTemplate.Proofs.Syntax.Written
import LiveTemplate.Proofs.Template.Reading
import LiveTemplate.Proofs.Value.Content
import LiveTemplate.Proofs.Value.Symbols
/-!
# The live names of a template

What reading makes of a template lists the names of its symbols.  These are the names that the text
mentions and that can be written, seen from the scope in which it is read: no more, because only
such names become symbols, and no fewer, because computing ahead never starts from a symbol.  So
whoever is told of these names is told of everything that the template depends on.

This needs constants that reach no symbols of their own; a node that was bound as a constant would
bring in names that the text does not mention.
-/

set_option autoImplicit false

namespace LiveTemplate

open Value
open Run (Ends)

namespace Value

/-! ## The names that parts of a value list -/

/-- The names listed on the way do not depend on those listed before. -/
def ListsApart (v : Value) : Prop :=
  ∀ (name : String) (names : List String), name ∈ listed names v ↔ name ∈ names ∨ name ∈ listed [] v

theorem mem_walkItems_apart {items : List Value} (h : ∀ v ∈ items, ListsApart v) {name : String}
    {names : List String} :
    name ∈ walkItems listName (fun _ => false) names items ↔
      name ∈ names ∨ ∃ v ∈ items, name ∈ listed [] v := by
  induction items generalizing names with
  | nil => simp [walkItems]
  | cons v rest ih =>
    have hrest := @ih (fun w hw => h w (List.mem_cons_of_mem _ hw)) (listed names v)
    simp only [walkItems, Bool.false_eq_true, if_false]
    rw [hrest, h v List.mem_cons_self name names]
    simp [or_assoc]

theorem mem_walkEntries_apart {entries : List (String × Value)}
    (h : ∀ entry ∈ entries, ListsApart entry.2) {name : String} {names : List String} :
    name ∈ walkEntries listName (fun _ => false) names entries ↔
      name ∈ names ∨ ∃ entry ∈ entries, name ∈ listed [] entry.2 := by
  induction entries generalizing names with
  | nil => simp [walkEntries]
  | cons entry rest ih =>
    obtain ⟨key, v⟩ := entry
    have hrest := @ih (fun e he => h e (List.mem_cons_of_mem _ he)) (listed names v)
    simp only [walkEntries, Bool.false_eq_true, if_false]
    rw [hrest, h (key, v) List.mem_cons_self name names]
    simp [or_assoc]

theorem listsApart (v : Value) : ListsApart v := by
  induction v using nested_induction with
  | atom v h =>
    intro name names
    cases v with
    | symbol ref scope other =>
      simp [listed, walkExpanded, listName, symbolName?, Store.mem_insertName, or_comm]
    | _ => first | exact h.elim | simp [listed, walkExpanded, listName, symbolName?]
  | array ref items ih =>
    intro name names
    simp [listed, walkExpanded, listName, symbolName?, mem_walkItems_apart ih]
  | map ref entries ih =>
    intro name names
    simp [listed, walkExpanded, listName, symbolName?, mem_walkEntries_apart ih]
  | node ref op operands ih =>
    intro name names
    simp [listed, walkExpanded, listName, symbolName?, mem_walkItems_apart ih]
  | filter ref name properties _ =>
    intro name names
    simp [listed, walkExpanded, listName, symbolName?]

/-- What is free of symbols lists nothing. -/
theorem listed_of_free (v : Value) (h : v.hasEvaluable = false) : listed [] v = [] := by
  suffices hnone : ∀ name, name ∉ listed [] v from List.eq_nil_iff_forall_not_mem.mpr hnone
  induction v using nested_induction with
  | atom v hatom =>
    intro name
    cases v with
    | symbol => cases h
    | _ => first | exact hatom.elim | simp [listed, walkExpanded, listName, symbolName?]
  | array ref items ih =>
    intro name
    have hitems := hasEvaluable_array.mp h
    simp only [listed, walkExpanded, listName, symbolName?]
    rw [if_neg (by simp), mem_walkItems_apart fun v _ => listsApart v]
    rintro (hn | ⟨v, hv, hn⟩)
    · cases hn
    · exact ih v hv (hitems v hv) name hn
  | map ref entries ih =>
    intro name
    have hentries := hasEvaluable_map.mp h
    simp only [listed, walkExpanded, listName, symbolName?]
    rw [if_neg (by simp), mem_walkEntries_apart fun entry _ => listsApart entry.2]
    rintro (hn | ⟨entry, he, hn⟩)
    · cases hn
    · exact ih entry he (hentries entry he) name hn
  | node => cases h
  | filter ref name properties _ =>
    intro other
    simp [listed, walkExpanded, listName, symbolName?]

variable {store : Store}

/-- A node lists what its operands list. -/
theorem mem_symbols_node {ref : Ref} {op : Operator} {operands : List Value} {name : String} :
    name ∈ (node ref op operands).symbols store ↔ ∃ v ∈ operands, name ∈ v.symbols store := by
  simp only [symbols_eq_listed, expanded_node, listed, walkExpanded, listName, symbolName?]
  rw [if_neg (by simp), mem_walkItems_apart fun v _ => listsApart v]
  simp

theorem Plain.symbols {v : Value} (h : Plain store v) : v.symbols store = [] := by
  rw [symbols_eq_listed]
  refine listed_of_free _ ?_
  rw [← reachesEvaluable_eq]
  exact h.free

end Value

/-! ## What reading makes -/

/-- Can the name be written, as seen from the scope? -/
def Store.isWritable (store : Store) (scope : ScopeId) (name : String) : Bool :=
  match store.binding? scope name with
  | some binding => binding.kind != .constant
  | none => false

/-- What is bound as a constant, as seen from the scope, is plain. -/
def Store.PlainConstants (store : Store) (scope : ScopeId) : Prop :=
  ∀ name binding, store.binding? scope name = some binding → binding.kind = .constant →
    Plain store binding.value

/-- The constants are plain if no scope at all has others. -/
theorem Store.PlainConstants.ofAll {store : Store}
    (h : ∀ owner ∈ store.scopes, ∀ entry ∈ owner.bindings, entry.2.kind = .constant →
      Plain store entry.2.value) (scope : ScopeId) : store.PlainConstants scope := by
  intro name binding hbinding hkind
  obtain ⟨owner, howner, entry, hentry, rfl⟩ := Store.mem_of_binding? hbinding
  exact h owner howner entry hentry hkind

/-- The value lists those of the names that can be written, and it is plain or an expression. -/
structure Value.Lists (store : Store) (scope : ScopeId) (names : List String) (v : Value) : Prop where
  symbols : ∀ name, name ∈ v.symbols store ↔ name ∈ names ∧ store.isWritable scope name = true
  plain : v.isEvaluable = false → Plain store v

namespace Value.Lists

variable {store : Store} {scope : ScopeId}

/-- A plain value lists nothing. -/
theorem ofPlain {names : List String} {v : Value} (hv : Plain store v)
    (h : ∀ name ∈ names, store.isWritable scope name = false) : Lists store scope names v where
  symbols name := by
    rw [hv.symbols]
    have := h name
    simp_all
  plain _ := hv

theorem leaf (hconst : store.PlainConstants scope) (operand : Leaf) {v : Value}
    (h : (Term.leaf operand).Gives store scope v) :
    Lists store scope (Term.leaf operand).names v := by
  cases Leaf.denotes h with
  | scalar hname hv _ =>
    refine ofPlain (plain_inline hv) ?_
    cases operand with
    | name name => exact absurd rfl (hname name)
    | _ => simp [Term.names]
  | unbound howned =>
    refine ofPlain (plain_inline rfl) ?_
    simp [Term.names, Store.isWritable, Store.binding?, howned]
  | @constant name owner _ howned =>
    have hbinding : store.binding? scope name = some ⟨v, .constant⟩ := Store.binding?_of_owned? howned
    refine ofPlain (hconst name _ hbinding rfl) ?_
    simp [Term.names, Store.isWritable, hbinding]
  | @symbol name owner value kind ref howned hkind =>
    constructor
    · intro other
      show other ∈ Store.insertName name [] ↔ other ∈ [name] ∧ _
      simp only [Store.insertName, List.mem_singleton]
      refine ⟨fun h => ⟨h, ?_⟩, fun h => h.1⟩
      simp [h, Store.isWritable, Store.binding?_of_owned? howned, hkind]
    · intro hsettled
      cases hsettled

/-- **No operator loses a symbol**: what it makes of values lists what they list. -/
theorem build {op : Operator} {operands : List Term} {vs : List Value} {v : Value} {e e' : Effects}
    (h : List.Forall₂ (fun v term => Lists store scope (Term.names term) v) vs operands)
    (hr : (op.build store vs).run e = (.ok v, e')) :
    Lists store scope (Term.apply op operands).names v := by
  have hunion : ∀ name, (∃ w ∈ vs, name ∈ w.symbols store) ↔
      name ∈ Term.namesAll operands ∧ store.isWritable scope name = true := by
    intro name
    clear hr
    induction h with
    | nil => simp [Term.namesAll]
    | cons hw _ ih =>
      simp only [List.exists_mem_cons_iff, ih, hw.symbols, Term.namesAll, List.mem_append,
        or_and_right]
  unfold Operator.build at hr
  by_cases hc : Operator.isConstant store op vs = true
  · -- the operands are plain, and so none of the names can be written
    rw [if_pos hc] at hr
    have hplain : ∀ w ∈ vs, Plain store w := by
      intro w hw
      have hsettled := Operator.forall_left h fun _ _ hlists => hlists.plain
      exact hsettled w hw (not_isEvaluable (Operator.free_of_isConstant hc w hw))
    have hends : Ends (Plain store) Fault.IsOverflow (op.apply store vs) := by
      refine apply_closed (closed_plain store) op fun w hw => ?_
      rw [(hplain w hw).eval]
      exact .pure (hplain w hw)
    refine ofPlain (hends.value hr) fun name hname => ?_
    by_contra hlive
    rw [Bool.not_eq_false] at hlive
    obtain ⟨w, hw, hlisted⟩ := (hunion name).mpr ⟨hname, hlive⟩
    rw [(hplain w hw).symbols] at hlisted
    cases hlisted
  · rw [if_neg hc] at hr
    cases hr
    exact ⟨fun name => mem_symbols_node.trans (hunion name), nofun⟩

/-- What a tree stands for lists the live names that the tree mentions. -/
theorem tree (hconst : store.PlainConstants scope) (tree : Tree) {v : Value}
    (h : tree.term.Gives store scope v) : Lists store scope tree.names v := by
  rw [← tree.names_term]
  exact tree.term_written.gives_induction (P := fun term v => Lists store scope term.names v)
    (fun operand _ hv => leaf hconst operand hv) (fun _ _ _ _ _ _ hvs hr => build hvs hr) v h

end Value.Lists

namespace Template

variable {store : Store} {scope : ScopeId} {source : String}

/-- A root that binds a name for the user to write, and another one as a constant. -/
def deskStore : Store :=
  ⟨[⟨[0], [("c", ⟨.text "b", .constant⟩), ("x", ⟨.text "a", .user⟩)], {}, {}⟩], [0], []⟩

theorem plainConstants_desk : deskStore.PlainConstants 0 := by
  have hinline : ∀ owner ∈ deskStore.scopes, ∀ entry ∈ owner.bindings,
      entry.2.value.kind.isInline = true := by decide
  exact .ofAll (fun owner howner entry hentry _ => plain_inline (hinline owner howner entry hentry)) 0

end Template

end LiveTemplate
