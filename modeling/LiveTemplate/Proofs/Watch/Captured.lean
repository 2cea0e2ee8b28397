import LiveTemplate.Proofs.Value.Home
import LiveTemplate.Proofs.Watch.Steps
/-!
# A name means one thing, and a symbol keeps it

However a name is looked up from a scope, it is the nearest binding that answers, or all lookups agree that
there is none.  In an expression a name that can be written stands for a symbol at the owner of the name,
and the symbol has the value that the scope sees.

A symbol stays with its owner.  Whatever is bound or written later, in whichever scope, and whatever
scopes are added: as long as the owner lives, the symbol has the value that the owner itself binds to the
name.  A scope between the owner and the place where the name was read may come to shadow the name for
everybody who reads it anew; the symbol does not notice.
-/

set_option autoImplicit false

namespace LiveTemplate

namespace Store

variable {store : Store} {scope owner : ScopeId} {name : String} {binding : Binding}

/-- The owner is in the lineage. -/
theorem Nearest.mem_lineage (h : store.Nearest scope name owner binding) :
    owner ∈ store.lineage scope := by
  obtain ⟨before, after, hlineage, -⟩ := h
  simp [hlineage]

/-- A symbol at a scope that lives and binds its name has the value that is bound there. -/
theorem Rooted.eval_symbol (h : store.Rooted) (hlive : store.isLive owner = true)
    (hown : store.ownBinding? owner name = some binding) (ref : Ref) :
    (Value.symbol ref owner name).eval store = pure binding.value := by
  have howned := h.owned_own hown
  simp [Value.eval, hlive, get_of_owned? howned]

end Store

namespace World

variable {world : World}

/-- **All lookups of a name agree, and a symbol stays with its owner.**  Whatever was done before: all
lookups of the name from the scope deny that it is bound, or all answer from the nearest binding.  If this
is no constant, the symbol that the name stands for has the value that the scope sees; and whatever is
done later, it has the value that the owner itself binds to the name, as long as the owner lives. -/
theorem lookups_agree (hreach : world.Reachable) (scope : ScopeId) (name : String) :
    world.store.Denies scope name ∨
    ∃ owner binding, world.store.Answers scope name owner binding ∧
      (binding.kind ≠ .constant → ∀ ref,
        (world.store.isLive scope = true →
          (Value.symbol ref owner name).eval world.store = pure (world.store.get scope name)) ∧
        ∀ last, world.Leads last → last.store.isLive owner = true →
          ∃ later, last.store.ownBinding? owner name = some later ∧
            (Value.symbol ref owner name).eval last.store = pure later.value) := by
  rcases world.store.answers_or_denies scope name with ⟨owner, binding, hanswers⟩ | hdenies
  · have hown : world.store.ownBinding? owner name = some binding :=
      Store.ownBinding?_of_owned? (Store.owned_iff_nearest.mpr hanswers.nearest)
    refine .inr ⟨owner, binding, hanswers, fun _ ref => ⟨fun hlive => ?_, fun last hleads hlive => ?_⟩⟩
    · have howner := hreach.chained.isLive hlive hanswers.nearest.mem_lineage
      have hget : world.store.get scope name = binding.value := by simp [Store.get, hanswers.get]
      rw [hget]
      exact Store.Rooted.eval_symbol hreach.rooted.first howner hown ref
    · obtain ⟨later, hlater⟩ := hleads.ownBinding? hown
      exact ⟨later, hlater,
        Store.Rooted.eval_symbol (hleads.reachable hreach).rooted.first hlive hlater ref⟩
  · exact .inl hdenies

end World

namespace Action

/-- The child has a child of its own, which shadows the name. -/
def shadowedChild : World :=
  ((put 2 "x" .constant (.text "c")).run ((newChild 1).run guardedChild).2).2

theorem reachable_guardedChild : guardedChild.Reachable :=
  ((World.Reachable.initial 1).step (.newRoot {} {})).step (.put 0 "x" .user (.text "a"))
    |>.step (.newChild 0) |>.step (.put 1 "x" .system (.text "b"))

theorem leads_shadowedChild : guardedChild.Leads shadowedChild :=
  .tail (.single ⟨_, newChild 1, .newChild 1, rfl⟩) ⟨_, _, .put 2 "x" .constant (.text "c"), rfl⟩

theorem lookups_agree_shadowed : guardedChild.Reachable ∧ guardedChild.Leads shadowedChild ∧
    shadowedChild.store.isLive 1 = true ∧
    guardedChild.store.resolve 1 "x" = Run.fresh >>= (fun ref => pure (.symbol ref 1 "x")) ∧
    ∃ later, shadowedChild.store.ownBinding? 1 "x" = some later ∧
      (Value.symbol 7 1 "x").eval shadowedChild.store = pure later.value := by
  have hbound : ((guardedChild.store.owned? 1 "x").any fun found =>
      found.1 == 1 && found.2.kind == .system) = true := by decide +kernel
  have hlive : shadowedChild.store.isLive 1 = true := by decide +kernel
  refine ⟨reachable_guardedChild, leads_shadowedChild, hlive, ?_⟩
  rcases World.lookups_agree reachable_guardedChild 1 "x" with
    hdenies | ⟨owner, binding, hanswers, hsymbol⟩
  · rw [Store.owned_none_iff.mpr hdenies.unbound] at hbound
    cases hbound
  · rw [Store.owned_iff_nearest.mpr hanswers.nearest] at hbound
    obtain ⟨howner, hkind⟩ := (Bool.and_eq_true _ _).mp hbound
    obtain rfl : owner = 1 := eq_of_beq howner
    have hwritable : binding.kind ≠ .constant := by rw [eq_of_beq hkind]; decide
    exact ⟨hanswers.writable hwritable, (hsymbol hwritable 7).2 _ leads_shadowedChild hlive⟩

end Action

end LiveTemplate
