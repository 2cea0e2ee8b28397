import LiveTemplate.Proofs.Template.Lookup
/-!
# The names of an expression

An expression lists the names of its symbols by walking through all of itself.  The list misses no
symbol, however deep, and has no name twice; so a watch that is listed under each of these names
hears of every binding that its expression reads, and hears of it once.
-/

set_option autoImplicit false

namespace LiveTemplate

namespace Value

/-! ## Walks -/

section

variable {σ : Type} {visit : σ → Value → σ} {isFinal : σ → Bool} {P : σ → Prop}

theorem walkItems_keeps {items : List Value}
    (h : ∀ v ∈ items, ∀ state, P state → P (walkExpanded visit isFinal state v)) {state : σ}
    (hs : P state) : P (walkItems visit isFinal state items) := by
  induction items generalizing state with
  | nil => exact hs
  | cons v rest ih =>
    have hv := h v List.mem_cons_self state hs
    simp only [walkItems]
    split
    · exact hv
    · exact ih (fun w hw => h w (List.mem_cons_of_mem _ hw)) hv

theorem walkEntries_keeps {entries : List (String × Value)}
    (h : ∀ entry ∈ entries, ∀ state, P state → P (walkExpanded visit isFinal state entry.2))
    {state : σ} (hs : P state) : P (walkEntries visit isFinal state entries) := by
  induction entries generalizing state with
  | nil => exact hs
  | cons entry rest ih =>
    have hv := h entry List.mem_cons_self state hs
    simp only [walkEntries]
    split
    · exact hv
    · exact ih (fun e he => h e (List.mem_cons_of_mem _ he)) hv

/-- What every visit keeps is kept by a walk. -/
theorem walk_keeps (hvisit : ∀ state v, P state → P (visit state v)) (v : Value) :
    ∀ state, P state → P (walkExpanded visit isFinal state v) := by
  induction v using nested_induction with
  | atom v h =>
    intro state hs
    cases v <;> first | exact hvisit _ _ hs | exact h.elim
  | array ref items ih =>
    intro state hs
    simp only [walkExpanded]
    split
    · exact hvisit _ _ hs
    · exact walkItems_keeps ih (hvisit _ _ hs)
  | map ref entries ih =>
    intro state hs
    simp only [walkExpanded]
    split
    · exact hvisit _ _ hs
    · exact walkEntries_keeps ih (hvisit _ _ hs)
  | node ref op operands ih =>
    intro state hs
    simp only [walkExpanded]
    split
    · exact hvisit _ _ hs
    · exact walkItems_keeps ih (hvisit _ _ hs)
  | filter ref name properties _ =>
    intro state hs
    exact hvisit _ _ hs

end

/-! ## Listing names -/

/-- Add the name of a symbol. -/
def listName (names : List String) (v : Value) : List String :=
  match v.symbolName? with
  | some name => Store.insertName name names
  | none => names

/-- The names that are listed after walking through an expanded value. -/
abbrev listed (names : List String) (v : Value) : List String :=
  walkExpanded listName (fun _ => false) names v

theorem symbols_eq_listed (store : Store) (v : Value) :
    v.symbols store = listed [] (v.expanded store) := rfl

theorem listed_pairwise (v : Value) {names : List String} (h : names.Pairwise (· < ·)) :
    (listed names v).Pairwise (· < ·) := by
  refine walk_keeps (fun names v hnames => ?_) v names h
  unfold listName
  split
  · exact Store.insertName_pairwise hnames
  · exact hnames

/-- **No name is listed twice.** -/
theorem symbols_nodup (store : Store) (v : Value) : (v.symbols store).Nodup := by
  have hsorted : (v.symbols store).Pairwise (· < ·) := listed_pairwise _ List.Pairwise.nil
  refine hsorted.imp ?_
  rintro a _ hlt rfl
  exact Std.lt_irrefl hlt

theorem mem_listName {n : String} {names : List String} (h : n ∈ names) (v : Value) :
    n ∈ listName names v := by
  unfold listName
  split
  · exact Store.mem_insertName.mpr (.inr h)
  · exact h

theorem mem_listed {n : String} {names : List String} (h : n ∈ names) (v : Value) :
    n ∈ listed names v :=
  walk_keeps (P := fun names => n ∈ names) (fun _ w hn => mem_listName hn w) v names h

theorem mem_walkItems {n : String} {names : List String} (h : n ∈ names) (items : List Value) :
    n ∈ walkItems listName (fun _ => false) names items :=
  walkItems_keeps (P := fun names => n ∈ names) (fun w _ _ hn => mem_listed hn w) h

variable {store : Store} {bound : ScopeId → String → Prop}

/-- The symbols of elements are listed on a walk through them. -/
theorem ReadsOnly.walkItems {f : Value → Value} {operands : List Value}
    (h : ∀ v ∈ operands, ∀ names,
      ReadsOnly store (fun scope name => bound scope name ∧ name ∈ listed names (f v)) v)
    (names : List String) :
    ∀ v ∈ operands, ReadsOnly store (fun scope name => bound scope name ∧
      name ∈ Value.walkItems listName (fun _ => false) names (operands.map f)) v := by
  induction operands generalizing names with
  | nil => exact fun _ hv => nomatch hv
  | cons w rest ih =>
    intro v hv
    rcases List.mem_cons.mp hv with rfl | hv
    · exact (h v List.mem_cons_self names).mono fun _ _ hb => ⟨hb.1, mem_walkItems hb.2 _⟩
    · exact ih (fun u hu => h u (List.mem_cons_of_mem _ hu)) _ v hv

theorem ReadsOnly.listed {v : Value} (h : ReadsOnly store bound v) (inside : Value → Value) :
    ∀ names, ReadsOnly store (fun scope name => bound scope name ∧
      name ∈ Value.listed names (freezeWith store inside v).copyViews) v := by
  induction h with
  | plain hv => exact fun _ => .plain hv
  | symbol hbound => exact fun _ => .symbol ⟨hbound, Store.mem_insertName.mpr (.inl rfl)⟩
  | @node ref op operands _ ih =>
    intro names
    have hwalk : Value.listed names (freezeWith store inside (.node ref op operands)).copyViews
        = Value.walkItems listName (fun _ => false) names
          (operands.map fun v => (freezeWith store inside v).copyViews) := by
      simp only [freezeWith, copyViews, freezeItems_eq_map, copyViewsItems_eq_map, List.map_map]
      rfl
    rw [hwalk]
    exact .node fun v hv => ReadsOnly.walkItems ih names v hv

/-- **No symbol is missed.** -/
theorem ReadsOnly.symbols {v : Value} (h : ReadsOnly store bound v) :
    ReadsOnly store (fun scope name => bound scope name ∧ name ∈ v.symbols store) v :=
  h.listed _ []

end Value

end LiveTemplate
