import LiveTemplate.Proofs.Grammar.Construct
import LiveTemplate.Proofs.Operator.Build
import LiveTemplate.Proofs.Operator.Closed
import LiveTemplate.Proofs.Template.Parametric
/-!
# What terms stand for

A term stands for a value in a scope.  It *gives* a value if the value can come out when the
operators are put on what their operands give; the references that are handed out on the way do
not matter, so that a term may give many values, all of them alike.  With this relation the
machine on values follows the machine on terms, by parametricity, and building a tree follows its
term, by induction on the tree.

Only computing can break off a run, when the days of a time overflow; the machine itself never
does.
-/

set_option autoImplicit false

namespace LiveTemplate

open Value
open Run (Ends Related)

mutual
/-- The term stands for the value. -/
def Term.Gives (store : Store) (scope : ScopeId) : Term → Value → Prop
  | .leaf operand, v => ∃ e e', (Template.ofLeaf store scope operand).run e = (.ok v, e')
  | .given w, v => v = w
  | .apply op operands, v => ∃ vs, Term.GivesAll store scope operands vs ∧
      ∃ e e', (op.build store vs).run e = (.ok v, e')

/-- The terms stand for the values, one by one. -/
def Term.GivesAll (store : Store) (scope : ScopeId) : List Term → List Value → Prop
  | [], vs => vs = []
  | term :: rest, vs => ∃ v ws, vs = v :: ws ∧ Term.Gives store scope term v ∧
      Term.GivesAll store scope rest ws
end

section

variable {store : Store} {scope : ScopeId}

theorem Term.givesAll_iff {terms : List Term} {vs : List Value} :
    Term.GivesAll store scope terms vs ↔ List.Forall₂ (fun v term => term.Gives store scope v) vs terms := by
  induction terms generalizing vs with
  | nil =>
    simp only [Term.GivesAll, List.forall₂_nil_right_iff]
  | cons term rest ih =>
    simp only [Term.GivesAll, List.forall₂_cons_right_iff, ih]
    constructor
    · rintro ⟨v, ws, rfl, hv, hws⟩
      exact ⟨v, ws, hv, hws, rfl⟩
    · rintro ⟨v, ws, hv, hws, rfl⟩
      exact ⟨v, ws, rfl, hv, hws⟩

/-- Any two values of one operand are related, and putting an operator on related values makes related
values. -/
structure Term.Relates (store : Store) (scope : ScopeId) (R : Value → Value → Prop) : Prop where
  refl : ∀ v, R v v
  leaf : ∀ {operand : Leaf} {v w : Value}, (Term.leaf operand).Gives store scope v →
    (Term.leaf operand).Gives store scope w → R v w
  build : ∀ {op : Operator} {vs ws : List Value} {v w : Value} {e e' f f' : Effects},
    List.Forall₂ R vs ws → (op.build store vs).run e = (.ok v, e') →
    (op.build store ws).run f = (.ok w, f') → R v w

mutual
/-- Then any two values of one term are related. -/
theorem Term.Relates.gives {R : Value → Value → Prop} (h : Term.Relates store scope R) (term : Term)
    {v w : Value} (hv : term.Gives store scope v) (hw : term.Gives store scope w) : R v w := by
  match term with
  | .leaf operand => exact h.leaf hv hw
  | .given u =>
    obtain rfl : v = u := hv
    obtain rfl : w = v := hw
    exact h.refl w
  | .apply op operands =>
    obtain ⟨vs, hvs, e, e', hr⟩ := hv
    obtain ⟨ws, hws, f, f', hs⟩ := hw
    exact h.build (Term.Relates.givesAll h operands hvs hws) hr hs

theorem Term.Relates.givesAll {R : Value → Value → Prop} (h : Term.Relates store scope R)
    (terms : List Term) {vs ws : List Value} (hvs : Term.GivesAll store scope terms vs)
    (hws : Term.GivesAll store scope terms ws) : List.Forall₂ R vs ws := by
  match terms with
  | [] =>
    obtain rfl : vs = [] := hvs
    obtain rfl : ws = [] := hws
    exact .nil
  | term :: rest =>
    obtain ⟨v, vs, rfl, hv, hvs⟩ := hvs
    obtain ⟨w, ws, rfl, hw, hws⟩ := hws
    exact .cons (Term.Relates.gives h term hv hw) (Term.Relates.givesAll h rest hvs hws)
end

/-- The steps with values that a script may become. -/
abbrev Resolves (store : Store) (scope : ScopeId) (steps : List (Step Value))
    (script : Grammar.Script) : Prop :=
  List.Forall₂ (Step.Corresponds fun v term => term.Gives store scope v) steps
    (script.map Step.onTerms)

/-! ## The machine on values follows the machine on terms -/

theorem ofLeaf_ends (operand : Leaf) :
    Ends (fun v => Term.Gives store scope (.leaf operand) v) Run.Never
      (Template.ofLeaf store scope operand) := by
  intro e
  rcases hr : (Template.ofLeaf store scope operand).run e with ⟨fault | v, e'⟩
  · exact (Template.ofLeaf_denotes store scope operand).fault hr
  · exact ⟨e, e', hr⟩

theorem Leaf.denotes {operand : Leaf} {v : Value} (h : (Term.leaf operand).Gives store scope v) :
    Template.Denotes store scope operand v := by
  obtain ⟨e, e', hr⟩ := h
  exact (Template.ofLeaf_denotes store scope operand).value hr

theorem ofStep_ends (step : Step Leaf) :
    Ends (fun s => Step.Corresponds (fun v term => term.Gives store scope v) s step.onTerms) Run.Never
      (Template.ofStep store scope step) := by
  cases step with
  | push operand => exact (ofLeaf_ends operand).bind fun v hv => .pure (.push hv)
  | operator op => exact .pure (.operator op)
  | foldLeft rank => exact .pure (.foldLeft rank)
  | foldUnary rank => exact .pure (.foldUnary rank)
  | foldNewest rank => exact .pure (.foldNewest rank)
  | foldRight rank => exact .pure (.foldRight rank)
  | foldChoice => exact .pure .foldChoice
  | enter => exact .pure .enter
  | leave mode => exact .pure (.leave mode)

theorem ofScript_ends (script : Grammar.Script) :
    Ends (fun steps => Resolves store scope steps script) Run.Never
      (Template.ofScript store scope script) := by
  induction script with
  | nil => exact .pure .nil
  | cons step rest ih =>
    exact (ofStep_ends step).bind fun _ hstep => ih.bind fun _ hrest => .pure (.cons hstep hrest)

theorem builder_gives (store : Store) (scope : ScopeId) :
    Builder.Corresponds Effects.Always Fault.IsOverflow (fun v term => term.Gives store scope v)
      (Template.builder store) Term.builder where
  blank := ⟨⟨0, 0, []⟩, ⟨0, 0, []⟩, rfl⟩
  build op vs terms h e f _ := by
    have hends := build_ends store op vs e
    show Run.Paired _ _ _ ((op.build store vs).run e) (.ok (Term.apply op terms), f)
    rcases hr : (op.build store vs).run e with ⟨fault | v, e'⟩
    · rw [hr] at hends
      exact .alone hends
    · exact .values ⟨vs, Term.givesAll_iff.mpr h, e, e', hr⟩ trivial

/-- **The machine on values follows the machine on terms.**  Where the one is led by a script the
other one is led as well, to values that the terms give; and only the overflow of a day count stops
it. -/
theorem run_follows {script : Grammar.Script} {steps : List (Step Value)}
    (hsteps : Resolves store scope steps script) {start last : Regions Term} {regions : Regions Value}
    (hstart : Regions.Corresponds (fun v term => term.Gives store scope v) regions start)
    (ht : Takes start script last) :
    Ends (fun regions' => Regions.Corresponds (fun v term => term.Gives store scope v) regions' last)
      Fault.IsOverflow (regions.run (Template.builder store) steps) := by
  have hrelated := Regions.run_related (builder_gives store scope) hsteps hstart
  rw [ht] at hrelated
  exact hrelated.ends_of_pure

/-! ## Building follows the term -/

theorem resolve_steady {link : Effects → Effects → Prop} (hl : Effects.Loose link) (name : String) :
    Library.Steady (shapes store) link (store.resolve scope name) := by
  rw [Store.resolve_eq]
  split
  · split
    · exact .pure rfl
    · exact .fresh_bind hl fun _ _ => .pure rfl
  · exact .pure rfl

theorem ofLeaf_steady {link : Effects → Effects → Prop} (hl : Effects.Loose link) (operand : Leaf) :
    Library.Steady (shapes store) link (Template.ofLeaf store scope operand) := by
  cases operand with
  | name name => exact resolve_steady hl name
  | _ => exact .pure rfl

theorem joined_related {link : Effects → Effects → Prop} (hl : Effects.Loose link) {vs ws : List Value}
    (h : AlikeAll vs ws) :
    Related link Run.Never Alike (Tree.joined store vs) (Tree.joined store ws) := by
  rcases alikeAll_iff.mp h with _ | ⟨hv, _ | ⟨_, _⟩⟩
  · exact .pure rfl
  · exact .pure hv
  · exact Operator.build_alike hl .merge h

/-- A joined term gives what joining the values of its segments can give. -/
theorem Term.gives_joined {segments : List Term} {v : Value}
    (h : (Term.joined segments).Gives store scope v) :
    ∃ vs, Term.GivesAll store scope segments vs ∧ ∃ e e', (Tree.joined store vs).run e = (.ok v, e') := by
  rcases segments with _ | ⟨first, _ | ⟨second, rest⟩⟩
  · obtain ⟨e, e', hr⟩ := h
    exact ⟨[], rfl, e, e', hr⟩
  · exact ⟨[v], ⟨v, [], rfl, h, rfl⟩, ⟨0, 0, []⟩, ⟨0, 0, []⟩, rfl⟩
  · obtain ⟨vs, hvs, e, e', hr⟩ := h
    refine ⟨vs, hvs, e, e', ?_⟩
    obtain ⟨v, ws, rfl, _, w, ws', rfl, _, _⟩ := hvs
    exact hr

theorem alikeAll_cons {v w : Value} {vs ws : List Value} (h : Alike v w) (hs : AlikeAll vs ws) :
    AlikeAll (v :: vs) (w :: ws) := congrArg₂ List.cons h hs

/-- Putting an operator on what the operands of a term give, made anew, gives it anew. -/
theorem Operator.build_anew {op : Operator} {vs ws : List Value} {v : Value} {e e' : Effects}
    (hr : (op.build store vs).run e = (.ok v, e')) (h : AlikeAll vs ws) :
    Ends (Alike v) Run.Never (op.build store ws) :=
  (Operator.build_alike Effects.loose_always op h).ends hr

mutual
/-- **Building a tree follows its term**: it always succeeds if the term gives a value, and makes
an alike one. -/
theorem Tree.build_anew (tree : Tree) {v : Value} (h : tree.term.Gives store scope v) :
    Ends (Alike v) Run.Never (tree.build store scope) := by
  match tree with
  | .leaf operand =>
    obtain ⟨e, e', hr⟩ := h
    exact (ofLeaf_steady Effects.loose_always operand).ends hr
  | .binding content => exact Tree.build_anew content h
  | .group content => exact Tree.build_anew content h
  | .text segments =>
    obtain ⟨vs, hvs, e, e', hr⟩ := Term.gives_joined h
    exact (Tree.buildAll_anew segments hvs).bind fun ws hws => (joined_related Effects.loose_always hws).ends hr
  | .array items =>
    obtain ⟨vs, hvs, e, e', hr⟩ := h
    exact (Tree.buildAll_anew items hvs).bind fun ws hws => Operator.build_anew hr hws
  | .map entries =>
    obtain ⟨_, ⟨flat, _, rfl, ⟨vs, hvs, _, _, hflat⟩, rfl⟩, e, e', hr⟩ := h
    exact (Tree.buildEntries_anew entries hvs).bind fun ws hws =>
      (Operator.build_anew hflat hws).bind fun flat' hf =>
        Operator.build_anew hr (alikeAll_cons hf rfl)
  | .field container name =>
    obtain ⟨_, ⟨c, _, rfl, hc, n, _, rfl, ⟨_, _, hn⟩, rfl⟩, e, e', hr⟩ := h
    cases hn
    exact (Tree.build_anew container hc).bind fun c' hc' =>
      Operator.build_anew hr (alikeAll_cons hc' rfl)
  | .index container key =>
    obtain ⟨_, ⟨c, _, rfl, hc, k, _, rfl, hk, rfl⟩, e, e', hr⟩ := h
    exact (Tree.build_anew container hc).bind fun c' hc' => (Tree.build_anew key hk).bind fun k' hk' =>
      Operator.build_anew hr (alikeAll_cons hc' (alikeAll_cons hk' rfl))
  | .call callee arguments =>
    obtain ⟨_, ⟨c, _, rfl, hc, list, _, rfl, ⟨vs, hvs, _, _, hlist⟩, rfl⟩, e, e', hr⟩ := h
    exact (Tree.build_anew callee hc).bind fun c' hc' =>
      (Tree.buildAll_anew arguments hvs).bind fun ws hws =>
        (Operator.build_anew hlist hws).bind fun list' hl =>
          Operator.build_anew hr (alikeAll_cons hc' (alikeAll_cons hl rfl))
  | .sign op operand =>
    obtain ⟨_, ⟨a, _, rfl, ha, rfl⟩, e, e', hr⟩ := h
    exact (Tree.build_anew operand ha).bind fun a' ha' =>
      Operator.build_anew hr (alikeAll_cons ha' rfl)
  | .binary op left right =>
    obtain ⟨_, ⟨a, _, rfl, ha, b, _, rfl, hb, rfl⟩, e, e', hr⟩ := h
    exact (Tree.build_anew left ha).bind fun a' ha' => (Tree.build_anew right hb).bind fun b' hb' =>
      Operator.build_anew hr (alikeAll_cons ha' (alikeAll_cons hb' rfl))
  | .choice condition whenTrue whenFalse =>
    obtain ⟨_, ⟨c, _, rfl, hc, a, _, rfl, ha, b, _, rfl, hb, rfl⟩, e, e', hr⟩ := h
    exact (Tree.build_anew condition hc).bind fun c' hc' =>
      (Tree.build_anew whenTrue ha).bind fun a' ha' =>
        (Tree.build_anew whenFalse hb).bind fun b' hb' =>
          Operator.build_anew hr
            (alikeAll_cons hc' (alikeAll_cons ha' (alikeAll_cons hb' rfl)))

theorem Tree.buildAll_anew (trees : List Tree) {vs : List Value}
    (h : Term.GivesAll store scope (Tree.terms trees) vs) :
    Ends (AlikeAll vs) Run.Never (Tree.buildAll store scope trees) := by
  match trees with
  | [] => exact .pure (congrArg _ h)
  | tree :: rest =>
    obtain ⟨v, ws, rfl, hv, hws⟩ := h
    exact (Tree.build_anew tree hv).bind fun _ hv' => (Tree.buildAll_anew rest hws).bind fun _ hws' =>
      .pure (alikeAll_cons hv' hws')

theorem Tree.buildEntries_anew (entries : List (Tree × Tree)) {vs : List Value}
    (h : Term.GivesAll store scope (Tree.entryTerms entries) vs) :
    Ends (AlikeAll vs) Run.Never (Tree.buildEntries store scope entries) := by
  match entries with
  | [] => exact .pure (congrArg _ h)
  | (key, tree) :: rest =>
    obtain ⟨k, _, rfl, hk, v, ws, rfl, hv, hws⟩ := h
    exact (Tree.build_anew key hk).bind fun _ hk' => (Tree.build_anew tree hv).bind fun _ hv' =>
      (Tree.buildEntries_anew rest hws).bind fun _ hws' =>
        .pure (alikeAll_cons hk' (alikeAll_cons hv' hws'))
end

/-- Putting an operator on what terms give gives what their term gives. -/
theorem Operator.build_gives (op : Operator) {terms : List Term} {vs : List Value}
    (h : Term.GivesAll store scope terms vs) :
    Ends (fun v => (Term.apply op terms).Gives store scope v) Fault.IsOverflow (op.build store vs) := by
  intro e
  have hends := build_ends store op vs e
  rcases hr : (op.build store vs).run e with ⟨x | v, e'⟩
  · rw [hr] at hends
    exact hends
  · exact ⟨vs, h, e, e', hr⟩

theorem Term.joined_gives {segments : List Term} {vs : List Value}
    (h : Term.GivesAll store scope segments vs) :
    Ends (fun v => (Term.joined segments).Gives store scope v) Fault.IsOverflow
      (Tree.joined store vs) := by
  rcases Term.givesAll_iff.mp h with _ | ⟨hv, _ | ⟨_, _⟩⟩
  · exact .pure ⟨⟨0, 0, []⟩, ⟨0, 0, []⟩, rfl⟩
  · exact .pure hv
  · exact Operator.build_gives .merge h

theorem Term.givesAll_one {a : Term} {v : Value} (h : a.Gives store scope v) :
    Term.GivesAll store scope [a] [v] := ⟨v, [], rfl, h, rfl⟩

theorem Term.givesAll_two {a b : Term} {v w : Value} (h : a.Gives store scope v)
    (k : b.Gives store scope w) : Term.GivesAll store scope [a, b] [v, w] :=
  ⟨v, [w], rfl, h, Term.givesAll_one k⟩

mutual
/-- **Building a tree gives what its term gives**, unless the days of a time overflow. -/
theorem Tree.build_gives (tree : Tree) :
    Ends (fun v => tree.term.Gives store scope v) Fault.IsOverflow (tree.build store scope) := by
  match tree with
  | .leaf operand => exact (ofLeaf_ends operand).mono (fun _ h => h) fun _ h => h.elim
  | .binding content => exact Tree.build_gives content
  | .group content => exact Tree.build_gives content
  | .text segments => exact (Tree.buildAll_gives segments).bind fun vs hvs => Term.joined_gives hvs
  | .array items =>
    exact (Tree.buildAll_gives items).bind fun vs hvs => Operator.build_gives .array hvs
  | .map entries =>
    exact (Tree.buildEntries_gives entries).bind fun vs hvs =>
      (Operator.build_gives .array hvs).bind fun flat hflat =>
        Operator.build_gives .map (Term.givesAll_one hflat)
  | .field container name =>
    have hname : (Term.leaf (.text name)).Gives store scope (.text name) :=
      ⟨⟨0, 0, []⟩, ⟨0, 0, []⟩, rfl⟩
    exact (Tree.build_gives container).bind fun c hc =>
      Operator.build_gives .field (Term.givesAll_two hc hname)
  | .index container key =>
    exact (Tree.build_gives container).bind fun c hc => (Tree.build_gives key).bind fun k hk =>
      Operator.build_gives .index (Term.givesAll_two hc hk)
  | .call callee arguments =>
    exact (Tree.build_gives callee).bind fun c hc =>
      (Tree.buildAll_gives arguments).bind fun vs hvs =>
        (Operator.build_gives .array hvs).bind fun list hlist =>
          Operator.build_gives .call (Term.givesAll_two hc hlist)
  | .sign op operand =>
    exact (Tree.build_gives operand).bind fun a ha =>
      Operator.build_gives op (Term.givesAll_one ha)
  | .binary op left right =>
    exact (Tree.build_gives left).bind fun a ha => (Tree.build_gives right).bind fun b hb =>
      Operator.build_gives op (Term.givesAll_two ha hb)
  | .choice condition whenTrue whenFalse =>
    exact (Tree.build_gives condition).bind fun c hc =>
      (Tree.build_gives whenTrue).bind fun a ha => (Tree.build_gives whenFalse).bind fun b hb =>
        Operator.build_gives .choose ⟨c, [a, b], rfl, hc, Term.givesAll_two ha hb⟩

theorem Tree.buildAll_gives (trees : List Tree) :
    Ends (fun vs => Term.GivesAll store scope (Tree.terms trees) vs) Fault.IsOverflow
      (Tree.buildAll store scope trees) := by
  match trees with
  | [] => exact .pure rfl
  | tree :: rest =>
    exact (Tree.build_gives tree).bind fun v hv => (Tree.buildAll_gives rest).bind fun ws hws =>
      .pure ⟨v, ws, rfl, hv, hws⟩

theorem Tree.buildEntries_gives (entries : List (Tree × Tree)) :
    Ends (fun vs => Term.GivesAll store scope (Tree.entryTerms entries) vs) Fault.IsOverflow
      (Tree.buildEntries store scope entries) := by
  match entries with
  | [] => exact .pure rfl
  | (key, tree) :: rest =>
    exact (Tree.build_gives key).bind fun k hk => (Tree.build_gives tree).bind fun v hv =>
      (Tree.buildEntries_gives rest).bind fun ws hws =>
        .pure ⟨k, v :: ws, rfl, hk, v, ws, rfl, hv, hws⟩
end

/-! ## Building is silent -/

mutual
/-- Building a tree draws no number and calls nothing impure, and does not depend on what was drawn or
called before. -/
theorem Tree.build_steady {link : Effects → Effects → Prop} (hl : Effects.Loose link)
    (tree : Tree) :
    Library.Steady (shapes store) link (tree.build store scope) := by
  match tree with
  | .leaf operand => exact ofLeaf_steady hl operand
  | .binding content => exact Tree.build_steady hl content
  | .group content => exact Tree.build_steady hl content
  | .text segments =>
    exact (Tree.buildAll_steady hl segments).bind fun _ _ hvs => joined_related hl hvs
  | .array items =>
    exact (Tree.buildAll_steady hl items).bind fun _ _ hvs => Operator.build_alike hl .array hvs
  | .map entries =>
    exact (Tree.buildEntries_steady hl entries).bind fun _ _ hvs =>
      (Operator.build_alike hl .array hvs).bind fun _ _ hflat =>
        Operator.build_alike hl .map (alikeAll_cons hflat rfl)
  | .field container _ =>
    exact (Tree.build_steady hl container).bind fun _ _ hc =>
      Operator.build_alike hl .field (alikeAll_cons hc rfl)
  | .index container key =>
    exact (Tree.build_steady hl container).bind fun _ _ hc => (Tree.build_steady hl key).bind fun _ _ hk =>
      Operator.build_alike hl .index (alikeAll_cons hc (alikeAll_cons hk rfl))
  | .call callee arguments =>
    exact (Tree.build_steady hl callee).bind fun _ _ hc =>
      (Tree.buildAll_steady hl arguments).bind fun _ _ hvs =>
        (Operator.build_alike hl .array hvs).bind fun _ _ hlist =>
          Operator.build_alike hl .call (alikeAll_cons hc (alikeAll_cons hlist rfl))
  | .sign op operand =>
    exact (Tree.build_steady hl operand).bind fun _ _ ha =>
      Operator.build_alike hl op (alikeAll_cons ha rfl)
  | .binary op left right =>
    exact (Tree.build_steady hl left).bind fun _ _ ha => (Tree.build_steady hl right).bind fun _ _ hb =>
      Operator.build_alike hl op (alikeAll_cons ha (alikeAll_cons hb rfl))
  | .choice condition whenTrue whenFalse =>
    exact (Tree.build_steady hl condition).bind fun _ _ hc =>
      (Tree.build_steady hl whenTrue).bind fun _ _ ha => (Tree.build_steady hl whenFalse).bind fun _ _ hb =>
        Operator.build_alike hl .choose (alikeAll_cons hc (alikeAll_cons ha (alikeAll_cons hb rfl)))

theorem Tree.buildAll_steady {link : Effects → Effects → Prop} (hl : Effects.Loose link)
    (trees : List Tree) :
    Related link Run.Never AlikeAll (Tree.buildAll store scope trees)
      (Tree.buildAll store scope trees) := by
  match trees with
  | [] => exact .pure rfl
  | tree :: rest =>
    exact (Tree.build_steady hl tree).bind fun _ _ hv => (Tree.buildAll_steady hl rest).bind fun _ _ hvs =>
      .pure (alikeAll_cons hv hvs)

theorem Tree.buildEntries_steady {link : Effects → Effects → Prop} (hl : Effects.Loose link)
    (entries : List (Tree × Tree)) :
    Related link Run.Never AlikeAll (Tree.buildEntries store scope entries)
      (Tree.buildEntries store scope entries) := by
  match entries with
  | [] => exact .pure rfl
  | (key, tree) :: rest =>
    exact (Tree.build_steady hl key).bind fun _ _ hk => (Tree.build_steady hl tree).bind fun _ _ hv =>
      (Tree.buildEntries_steady hl rest).bind fun _ _ hvs => .pure (alikeAll_cons hk (alikeAll_cons hv hvs))
end

end

end LiveTemplate
