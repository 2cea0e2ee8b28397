import LiveTemplate.Proofs.Value.Home
import LiveTemplate.Proofs.Watch.Course
import LiveTemplate.Proofs.Watch.Freshness
/-!
# Where a new watch is listed

A new watch is listed once under each name of the symbols that its expression contains, behind whatever
was listed there, with the scope that owns the name as seen from the scope in which the template was
read.  It is listed nowhere else.

Whoever writes a name tells the watches that are listed with the owner of the name.  So the watch hears
of everything that it reads, if its symbols are at home.  They are, unless a constant that the template
mentions holds an expression that was read elsewhere, and another scope owns one of its names there.
Then the watch is listed with the owner as seen from here, and reads from the other one.
-/

set_option autoImplicit false

namespace LiveTemplate

open Value

namespace World

variable {world : World} {scope : ScopeId} {id : WatchId} {names : List String}

/-- **Being listed** adds the watch to the end of one list for each name, and does nothing else. -/
theorem listed_registered (hnames : names.Nodup)
    (hlt : ∀ n ∈ names, world.store.concerned scope n < world.tables.length) (s : ScopeId) (n : String) :
    ((world.registered scope id names).table s).listed n =
      (world.table s).listed n ++
        if n ∈ names ∧ s = world.store.concerned scope n then [id] else [] := by
  induction names generalizing world with
  | nil => simp [registered]
  | cons name rest ih =>
    obtain ⟨hname, hrest⟩ := List.nodup_cons.mp hnames
    have hfirst := hlt name List.mem_cons_self
    have htables : ∀ other ∈ rest, world.store.concerned scope other <
        (world.modifyTable (world.store.concerned scope name) fun table =>
          table.add name id).tables.length :=
      fun other hother => (List.length_modify ..).symm ▸ hlt other (List.mem_cons_of_mem _ hother)
    unfold registered
    rw [ih hrest htables, listed_modifyTable_add, List.append_assoc]
    congr 1
    show _ ++ (if n ∈ rest ∧ s = world.store.concerned scope n then [id] else []) = _
    -- a name that was just listed does not come again
    by_cases hn : n = name
    · subst hn
      simp [hname, hfirst]
    · simp [hn]

end World

namespace Store

variable {store : Store} {scope : ScopeId} {name : String}

theorem concerned_lt (h : scope < store.scopes.length) :
    store.concerned scope name < store.scopes.length := by
  rw [concerned_eq]
  cases howned : store.owned? scope name with
  | none => exact h
  | some found => exact lt_of_ownBinding? (ownBinding?_of_owned? howned)

end Store

namespace Action

open World

/-- Seen from the scope of the template, the second scope owns the name, and the expression contains a
symbol of this name. -/
def Concerns (store : Store) (scope : ScopeId) (expression : Value) (owner : ScopeId) (name : String) :
    Prop :=
  owner = store.concerned scope name ∧
    ∃ ref other, Contains store expression (.symbol ref other name)

variable {world world' : World} {scope : ScopeId} {source : String} {id : WatchId}

section

variable {expression v : Value} {e : Effects} {s : ScopeId} {name : String}

theorem listed_watched (htables : ∀ n, world.store.concerned scope n < world.tables.length)
    (s : ScopeId) (name : String) : ((watched world scope expression v e).table s).listed name =
      (world.table s).listed name ++ if name ∈ expression.symbols world.store ∧
        s = world.store.concerned scope name then [world.watches.length] else [] := by
  unfold watched
  dsimp only
  rw [listed_registered (symbols_nodup _ _)]
  · rfl
  · exact fun n _ => htables n

theorem listed_of_concerns (htables : ∀ n, world.store.concerned scope n < world.tables.length)
    (h : Concerns world.store scope expression s name) :
    ((watched world scope expression v e).table s).listed name =
      (world.table s).listed name ++ [world.watches.length] := by
  rw [listed_watched htables, if_pos ⟨mem_symbols_iff.mpr h.2, h.1⟩]

theorem listed_of_not_concerns (htables : ∀ n, world.store.concerned scope n < world.tables.length)
    (h : ¬Concerns world.store scope expression s name) :
    ((watched world scope expression v e).table s).listed name = (world.table s).listed name := by
  rw [listed_watched htables, if_neg fun ⟨hname, howner⟩ => h ⟨howner, mem_symbols_iff.mp hname⟩,
    List.append_nil]

end

/-- **Where a watch is listed.**  Whatever was done before: if a watch is made in a scope that there is,
it is listed, once and last, under each name of a symbol that its expression contains, with the owner of
this name as seen from that scope, and nowhere else.  If the constants that are seen from there are at
home, then for each of these symbols it is listed with the very scope that the symbol reads from. -/
theorem watch_lists (hreach : world.Reachable) (hscope : scope < world.store.scopes.length)
    (h : (watch scope source).run world = (.ok (.ok id), world')) :
    ∃ watch, world'.store = world.store ∧ world'.watches = world.watches ++ [watch] ∧
      id = world.watches.length ∧ watch.isHeld = true ∧
      (∀ s name, Concerns world'.store scope watch.expression s name →
        (world'.table s).listed name = (world.table s).listed name ++ [id]) ∧
      (∀ s name, ¬Concerns world'.store scope watch.expression s name →
        (world'.table s).listed name = (world.table s).listed name) ∧
      (world'.store.HomeConstants scope → ∀ ref other name owner,
        Contains world'.store watch.expression (.symbol ref other name) →
        world'.store.ReadsFrom other name owner → id ∈ (world'.table owner).listed name) := by
  rcases watch_ends h with ⟨-, hno, -⟩ | ⟨expression, v, e, e', hread, -, hresult, rfl⟩
  · exact absurd rfl (hno id)
  obtain rfl : id = world.watches.length := by
    injection hresult with hok
    injection hok
  have htables : ∀ n, world.store.concerned scope n < world.tables.length :=
    fun n => hreach.rooted.tables.symm ▸ Store.concerned_lt hscope
  refine ⟨⟨expression, v, 0, true⟩, store_watched, watches_watched, rfl, rfl, ?_⟩
  rw [store_watched]
  refine ⟨fun s name => listed_of_concerns htables, fun s name => listed_of_not_concerns htables, ?_⟩
  intro hconstants ref other name owner hcontains hreads
  have hhome := Template.read_atHome hreach.rooted.first hconstants source world.effects
  rw [hread] at hhome
  have howner : world.store.concerned scope name = owner :=
    hhome expression rfl ref other name owner hcontains.leadsTo hreads
  rw [listed_of_concerns htables ⟨howner.symm, ref, other, hcontains⟩]
  exact List.mem_append_right _ List.mem_cons_self

/-- A root that binds a name, and a scope below it. -/
def nestedScopes : World := ((newChild 0).run ((put 0 "x" .user (.text "a")).run onlyRoot).2).2

/-- The root also has a constant, an expression that reads the name. -/
def linkedScopes : World := ((put 0 "y" .constant (.symbol 0 0 "x")).run nestedScopes).2

/-- And the scope below binds the name, too. -/
def shadowedScopes : World := ((put 1 "x" .user (.text "b")).run linkedScopes).2

theorem reachable_linkedScopes : linkedScopes.Reachable :=
  ((World.Reachable.initial 1).step (.newRoot {} {})).step (.put 0 "x" .user (.text "a"))
    |>.step (.newChild 0) |>.step (.put 0 "y" .constant (.symbol 0 0 "x"))

theorem wired_nestedScopes : nestedScopes.Wired := by
  obtain ⟨root, hrun, hwired, -⟩ := newRoot_wired [] (Effects.initial 1) {} {}
  have hroot : onlyRoot = root := congrArg Prod.snd hrun
  unfold nestedScopes
  rw [hroot]
  exact (newChild_keeps (put_keeps hwired (plain_inline rfl) rfl).wired rfl).wired

/-- Below the root, the constant reads what the name means there. -/
theorem homeConstants_linkedScopes : linkedScopes.store.HomeConstants 1 := by
  refine wired_nestedScopes.orderly.homeConstants_bind (atHome_symbol fun owner hreads => ?_)
  have howned : ((linkedScopes.store.owned? 0 "x").any fun found =>
      found.1 == linkedScopes.store.concerned 1 "x") = true := by decide +kernel
  obtain ⟨-, binding, hown⟩ := hreads
  rw [show linkedScopes.store.owned? 0 "x" = some (owner, binding) from hown] at howned
  exact (eq_of_beq howned).symm

/-- Is this a symbol of the name that was made in the scope? -/
def isSymbolIn (scope : ScopeId) (name : String) : Value → Bool
  | .symbol _ other found => other == scope && found == name
  | _ => false

theorem eq_of_isSymbolIn {name : String} {v : Value} (h : isSymbolIn scope name v = true) :
    ∃ ref, v = .symbol ref scope name := by
  cases v with
  | symbol ref other found =>
    obtain ⟨hscope, hname⟩ := (Bool.and_eq_true _ _).mp h
    exact ⟨ref, by rw [eq_of_beq hscope, eq_of_beq hname]⟩
  | _ => cases h

theorem watch_lists_linked : linkedScopes.Reachable ∧ 1 < linkedScopes.store.scopes.length ∧
    ∃ world', (watch 1 "$\x7by\x7d").run linkedScopes = (.ok (.ok 0), world') ∧
      world'.store.HomeConstants 1 ∧ 0 ∈ (world'.table 0).listed "x" := by
  have hreach := reachable_linkedScopes
  have hconstants := homeConstants_linkedScopes
  have hcount : 1 < linkedScopes.store.scopes.length := by decide +kernel
  have hmade : ((watch 1 "$\x7by\x7d").run linkedScopes).1.toOption.bind Except.toOption = some 0 := by
    decide +kernel
  have hsymbol : (((watch 1 "$\x7by\x7d").run linkedScopes).2.watches[0]?.any fun watch =>
      isSymbolIn 0 "x" watch.expression) = true := by decide +kernel
  have howned : ((linkedScopes.store.owned? 0 "x").any fun found => found.1 == 0) = true := by
    decide +kernel
  have hlive : linkedScopes.store.isLive 0 = true := by decide +kernel
  generalize linkedScopes = world at *
  refine ⟨hreach, hcount, ?_⟩
  rcases hrun : (watch 1 "$\x7by\x7d").run world with ⟨_ | _ | id, world'⟩ <;>
    rw [hrun] at hmade hsymbol
  · cases hmade
  · cases hmade
  · obtain rfl : id = 0 := Option.some.inj hmade
    obtain ⟨watch, hstore, hwatches, hid, -, -, -, hlisted⟩ := watch_lists hreach hcount hrun
    have hwatch : world'.watches[0]? = some watch := by
      rw [hwatches, hid]
      exact List.getElem?_concat_length
    rw [hwatch] at hsymbol
    obtain ⟨ref, hexpression⟩ := eq_of_isSymbolIn hsymbol
    obtain ⟨⟨owner, binding⟩, howned, howner⟩ := (Option.any_eq_true _ _).mp howned
    obtain rfl : owner = 0 := eq_of_beq howner
    rw [hstore] at hlisted
    refine ⟨world', rfl, hstore ▸ hconstants, ?_⟩
    exact hlisted hconstants ref 0 "x" 0 (hexpression ▸ .refl) ⟨hlive, binding, howned⟩

/-- The exception: the expression reads the root, and is listed with the scope below it. -/
example :
    let world := ((watch 1 "$\x7by\x7d").run shadowedScopes).2
    (world.watches[0]?.any fun watch => isSymbolIn 0 "x" watch.expression) = true ∧
      world.store.concerned 0 "x" = 0 ∧ (world.table 0).listed "x" = [] ∧
      (world.table 1).listed "x" = [0] := by decide +kernel

end Action

end LiveTemplate
