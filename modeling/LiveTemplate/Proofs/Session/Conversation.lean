import LiveTemplate.Proofs.Session.Notes
import LiveTemplate.Session
/-!
# What a session shows of what it watches

After a line that sets a name a session shows every template that it was asked to watch, with the value of
the watch.  In a conversation in which no line calls an impure function this is the text that the template
has then, but for names that nobody bound when the template was asked for.  Of these nothing is left in
what it was read to, and setting them later shows nowhere.
-/

set_option autoImplicit false

namespace LiveTemplate.Session

open Value
open Run (Ends run_bind run_pure)
open LiveTemplate.Action (run_compute run_get run_put run_store)

variable {scope : ScopeId} {world world' : World} {notes : List Note} {name : String}

/-! ## What is done for a line -/

/-- The line that shows a template with the value of its watch. -/
def watchLine (world : World) (entry : String × WatchId) : String :=
  "  " ++ entry.1 ++ " => " ++ match world.watches[entry.2]? with
    | some watch => watch.value.toText
    | none => ""

theorem run_watchLines (watches : List (String × WatchId)) (world : World) :
    (watchLines watches).run world = (.ok (watches.map (watchLine world)), world) := by
  induction watches with
  | nil => rfl
  | cons entry rest ih =>
    unfold watchLines
    simp only [run_bind, run_get, ih, run_pure]
    rfl

/-- **Setting a name silently** keeps the watches as they are noted, unless an evaluation overflows. -/
theorem Tracked.setName (h : Tracked world scope notes) {template : String}
    {result : Except Fault (List String)}
    (hr : (Session.setName scope name template).run world = (result, world'))
    (hsilent : world'.effects.calls.length = world.effects.calls.length) :
    (∃ x, result = .error x ∧ x.IsOverflow) ∨
      ∃ lines, result = .ok lines ∧ lines.length ≤ 1 ∧ Tracked world' scope notes := by
  have hnative := Template.evaluate_native h.wired.orderly h.native scope template
  have hrecords := Template.evaluate_records world.store scope template world.effects
  unfold Session.setName at hr
  simp only [run_bind, run_compute, run_store] at hr
  rcases heval : (Template.evaluate world.store scope template).run world.effects with ⟨x | v, e⟩ <;>
    rw [heval] at hr hrecords
  · obtain ⟨rfl, -⟩ := Prod.mk.inj hr
    exact .inl ⟨x, rfl, hnative.fault heval⟩
  · have hv := hnative.value heval
    have hevaluated := h.withEffects e
    cases hhas : world.store.has scope name with
    | false =>
      simp only [hhas, Bool.false_eq_true, if_false, run_bind, run_put, run_pure] at hr
      obtain ⟨rfl, rfl⟩ := Prod.mk.inj hr
      exact .inr ⟨[], rfl, Nat.zero_le _, hevaluated.put hhas hv⟩
    | true =>
      simp only [hhas, if_true, run_bind] at hr
      rcases hw : (Action.userWrite scope name v).run { world with effects := e } with ⟨x | done, last⟩ <;>
        rw [hw] at hr
      · obtain ⟨rfl, -⟩ := Prod.mk.inj hr
        exact .inl ⟨x, rfl, (Action.writeIf_keeps hevaluated.wired (hv.plain _) hw).fault x rfl⟩
      · have hlast : last = world' := by
          cases done <;> exact (Prod.mk.inj hr).2
        subst hlast
        -- calls are never taken back; so if none is left of both steps, the write made none
        have hquiet : last.effects.calls.length = e.calls.length :=
          Nat.le_antisymm (Nat.le_trans (Nat.le_of_eq hsilent) hrecords) (Action.writeIf_records hw)
        have htracked : Tracked last scope notes := hevaluated.write hv hw hquiet
        cases done <;> cases hr <;> exact .inr ⟨_, rfl, by simp, htracked⟩

/-- After a line that sets a name all templates are shown, behind one message at most. -/
theorem Tracked.set {session : Session} (h : Tracked world session.scope notes) {arguments : List Char}
    {result : Except Fault (Session × List String)}
    (hr : (session.carryOut (.set arguments)).run world = (result, world'))
    (hsilent : world'.effects.calls.length = world.effects.calls.length) :
    (∃ x, result = .error x ∧ x.IsOverflow) ∨
      ∃ own, result = .ok (session, own ++ session.watches.map (watchLine world')) ∧ own.length ≤ 1 ∧
        Tracked world' session.scope notes := by
  unfold carryOut at hr
  cases hcut : Command.cut? (Text.trim arguments) with
  | none =>
    simp only [hcut, run_bind, run_watchLines, run_pure] at hr
    obtain ⟨rfl, rfl⟩ := Prod.mk.inj hr
    exact .inr ⟨_, rfl, Nat.le_refl _, h⟩
  | some found =>
    simp only [hcut, run_bind, run_watchLines, run_pure] at hr
    rcases hset : (Session.setName session.scope (String.ofList found.1)
      (String.ofList (Text.trim found.2))).run world with ⟨x | lines, last⟩ <;> rw [hset] at hr
    · obtain ⟨rfl, rfl⟩ := Prod.mk.inj hr
      rcases h.setName hset hsilent with ⟨y, hy, hoverflow⟩ | ⟨lines, hlines, -⟩
      · exact .inl ⟨y, by rw [Except.error.inj hy], hoverflow⟩
      · cases hlines
    · obtain ⟨rfl, rfl⟩ := Prod.mk.inj hr
      rcases h.setName hset hsilent with ⟨y, hy, -⟩ | ⟨lines', hlines, hlength, htracked⟩
      · cases hy
      · obtain rfl : lines = lines' := Except.ok.inj hlines
        exact .inr ⟨lines, rfl, hlength, htracked⟩

/-- The other commands watch nothing, set nothing and bind nothing. -/
theorem carryOut_idle {session session' : Session} {command : Command} {lines : List String}
    (hset : ∀ arguments, command ≠ .set arguments) (hwatch : ∀ template, command ≠ .watch template)
    (hr : (session.carryOut command).run world = (.ok (session', lines), world')) :
    session' = session ∧ ∃ e, world' = { world with effects := e } := by
  cases command with
  | set arguments => exact absurd rfl (hset arguments)
  | watch template => exact absurd rfl (hwatch template)
  | help | quit | environment =>
    cases hr
    exact ⟨rfl, _, rfl⟩
  | get name =>
    unfold carryOut at hr
    simp only [run_bind, run_store] at hr
    cases hfound : world.store.require session.scope (String.ofList name) with
    | error unbound =>
      simp only [hfound, run_pure] at hr
      cases hr
      exact ⟨rfl, _, rfl⟩
    | ok value =>
      simp only [hfound, run_bind, run_compute, run_store, run_pure] at hr
      rcases heval : (value.eval world.store).run world.effects with ⟨x | v, e⟩ <;> rw [heval] at hr <;>
        cases hr
      exact ⟨rfl, _, rfl⟩
  | debug template =>
    unfold carryOut at hr
    simp only [run_bind, run_compute] at hr
    rcases hread : (Template.read world.store session.scope (String.ofList template)).run world.effects with
      ⟨x | mistake | value, e⟩ <;> rw [hread] at hr <;> cases hr <;> exact ⟨rfl, _, rfl⟩
  | evaluate template =>
    unfold carryOut showTemplate at hr
    simp only [run_bind, run_compute, run_store, run_pure] at hr
    rcases heval : (Template.evaluate world.store session.scope (String.ofList template)).run
      world.effects with ⟨x | v, e⟩ <;> rw [heval] at hr <;> cases hr
    exact ⟨rfl, _, rfl⟩

/-- A line that is empty is passed over, and the others are carried out, but for the last one. -/
theorem answer_cases {session : Session} {line : String} {result : Except Fault Reply}
    (hr : (session.answer line).run world = (result, world')) :
    (Text.trim line.toList = [] ∧ result = .ok (.lines session []) ∧ world' = world) ∨
    (Command.ofLine (Text.trim line.toList) = .quit ∧ result = .ok .over) ∨
    ∃ outcome, (session.carryOut (Command.ofLine (Text.trim line.toList))).run world = (outcome, world') ∧
      result = outcome.map fun (session, lines) => .lines session lines := by
  unfold answer at hr
  by_cases hempty : Text.trim line.toList = []
  · simp only [hempty, List.isEmpty_nil, if_true, run_pure] at hr
    obtain ⟨rfl, rfl⟩ := Prod.mk.inj hr
    exact .inl ⟨hempty, rfl, rfl⟩
  · simp only [List.isEmpty_iff, hempty, if_false] at hr
    refine .inr ?_
    split at hr
    · next hquit => exact .inl ⟨hquit, (Prod.mk.inj hr).1.symm⟩
    · rw [run_bind] at hr
      rcases hrun : (session.carryOut (Command.ofLine (Text.trim line.toList))).run world with
        ⟨x | pair, last⟩ <;> rw [hrun] at hr <;> obtain ⟨rfl, rfl⟩ := Prod.mk.inj hr
      · exact .inr ⟨_, rfl, rfl⟩
      · exact .inr ⟨_, rfl, rfl⟩

/-! ## Conversations -/

/-- What a line has to be noted for: a template to watch that can be read. -/
def noted (session : Session) (world : World) (line : String) : List Note :=
  match Command.ofLine (Text.trim line.toList) with
  | .watch template =>
    match TreeGrammar.read template with
    | .ok _ => [⟨String.ofList template, world.store.names session.scope⟩]
    | .error _ => []
  | _ => []

/-- What a conversation leads to, a session and a world, and what is noted in it.  No line calls an impure
function. -/
inductive Conversation : Session → World → List Note → Prop
  | start {viewport : Viewport} {agent : Agent} {seed : UInt64} {session : Session} {world : World} :
      (Session.start viewport agent).run (World.initial seed) = (.ok session, world) →
      Conversation session world []
  | line {session session' : Session} {world world' : World} {notes : List Note} {line : String}
      {shown : List String} : Conversation session world notes →
      (session.answer line).run world = (.ok (.lines session' shown), world') →
      world'.effects.calls = world.effects.calls →
      Conversation session' world' (notes ++ session.noted world line)

/-- What a session keeps of the templates: the watches of the world are theirs, in order. -/
def numbered (notes : List Note) : List (String × WatchId) := notes.mapIdx fun id note => (note.source, id)

/-- In a new root nothing is watched. -/
theorem Tracked.root_made (viewport : Viewport) (agent : Agent) (seed : UInt64) : ∃ world,
    (Action.newRoot viewport agent).run (World.initial seed) = (.ok 0, world) ∧ Tracked world 0 [] := by
  obtain ⟨world, hroot, hwired, hwatches⟩ := Action.newRoot_wired [] (Effects.initial seed) viewport agent
  obtain ⟨bindings, e, hbindings, hmade⟩ := Action.run_newRoot viewport agent (World.initial seed)
  rw [show Action.bare [] (Effects.initial seed) = World.initial seed from rfl] at hroot
  have hworld := (Prod.mk.inj (hroot.symm.trans hmade)).2
  have hnative : Ends (fun bindings => ∀ entry ∈ bindings, Native entry.2) Run.Never
      (Library.rootBindings viewport agent) :=
    @Library.rootBindings_closed Store.empty Native (closed_native Store.empty) Native.function viewport agent
  refine ⟨world, hroot, hwired, ?_, ?_, ?_, congrArg List.length hwatches, fun _ _ _ h => by cases h⟩
  · intro id watch hwatch
    rw [hwatches] at hwatch
    cases hwatch
  · rw [hworld]
    refine Store.BindsNative.bindAll (fun id name binding hown => ?_) (hnative.value hbindings)
    rw [Action.extended, Store.ownBinding?_grown] at hown
    cases hown
  · rw [hworld]
    exact Store.lineage_bindAll ..

theorem numbered_append (notes : List Note) (note : Note) :
    numbered (notes ++ [note]) = numbered notes ++ [(note.source, notes.length)] := by
  simp [numbered, List.mapIdx_append]

/-- The session goes on with what is noted. -/
structure Follows (session : Session) (world : World) (notes : List Note) : Prop where
  tracked : Tracked world session.scope notes
  watches : session.watches = numbered notes

/-- A line that watches a template is noted if the template can be read. -/
theorem Follows.watch {session session' : Session} {template : List Char} {lines : List String}
    (h : session.Follows world notes)
    (hr : (session.carryOut (.watch template)).run world = (.ok (session', lines), world'))
    (hsilent : world'.effects.calls.length = world.effects.calls.length) :
    (∃ cause, TreeGrammar.read template = .error cause ∧ session'.Follows world' notes) ∨
    ∃ tree, TreeGrammar.read template = .ok tree ∧
      session'.Follows world' (notes ++ [⟨String.ofList template, world.store.names session.scope⟩]) := by
  unfold carryOut at hr
  simp only [run_bind] at hr
  rcases hwatch : (Action.watch session.scope (String.ofList template)).run world with ⟨x | result, last⟩ <;>
    rw [hwatch] at hr
  · cases hr
  · have hlast : last = world' := by
      cases result <;> exact (Prod.mk.inj hr).2
    subst hlast
    rcases h.tracked.watch hwatch hsilent with
      ⟨mistake, cause, rfl, hread, htracked⟩ | ⟨tree, rfl, hread, htracked⟩ <;>
      rw [String.toList_ofList] at hread <;> cases hr
    · exact .inl ⟨cause, hread, htracked, h.watches⟩
    · refine .inr ⟨tree, hread, htracked, ?_⟩
      rw [numbered_append, ← h.watches]

/-- **One line**, if it calls no impure function. -/
theorem Follows.answer {session session' : Session} {line : String} {shown : List String}
    (h : session.Follows world notes)
    (hr : (session.answer line).run world = (.ok (.lines session' shown), world'))
    (hsilent : world'.effects.calls.length = world.effects.calls.length) :
    session'.Follows world' (notes ++ session.noted world line) := by
  unfold noted
  rcases answer_cases hr with ⟨hempty, hresult, rfl⟩ | ⟨-, hover⟩ | ⟨outcome, hrun, hresult⟩
  · cases hresult
    rw [hempty, show Command.ofLine [] = .evaluate [] from rfl, List.append_nil]
    exact h
  · cases hover
  · rcases outcome with x | ⟨next, lines⟩ <;> cases hresult
    cases hcommand : Command.ofLine (Text.trim line.toList) with
    | set arguments =>
      rw [hcommand] at hrun
      rcases h.tracked.set hrun hsilent with ⟨x, hx, -⟩ | ⟨own, hown, -, htracked⟩
      · cases hx
      · cases hown
        rw [List.append_nil]
        exact ⟨htracked, h.watches⟩
    | watch template =>
      rw [hcommand] at hrun
      rcases h.watch hrun hsilent with ⟨cause, hread, hfollows⟩ | ⟨tree, hread, hfollows⟩
      · simpa only [hread, List.append_nil] using hfollows
      · simpa only [hread] using hfollows
    | _ =>
      -- nothing is noted for them, and the store and the watches are what they were
      rw [hcommand] at hrun
      obtain ⟨rfl, e, rfl⟩ := carryOut_idle (by simp) (by simp) hrun
      rw [List.append_nil]
      exact ⟨h.tracked.withEffects e, h.watches⟩

theorem Conversation.follows {session : Session} (h : Conversation session world notes) :
    session.Follows world notes := by
  induction h with
  | @start viewport agent seed session world hr =>
    obtain ⟨made, hmade, htracked⟩ := Tracked.root_made viewport agent seed
    unfold Session.start at hr
    simp only [run_bind, hmade, run_pure] at hr
    cases hr
    exact ⟨htracked, rfl⟩
  | line _ hr hcalls ih => exact ih.answer hr (congrArg List.length hcalls)

/-! ## Conversations that are held -/

/-- What a line leads to and shows, if the session goes on and no impure function is called. -/
def next? (session : Session) (world : World) (line : String) : Option (Session × World × List String) :=
  match (session.answer line).run world with
  | (.ok (.lines session' shown), world') =>
    if world'.effects.calls = world.effects.calls then some (session', world', shown) else none
  | _ => none

/-- What lines lead to from the start, if all of them do so. -/
def conversed? (lines : List String) : Option (Session × World × List Note) :=
  match (Session.start {} {}).run (World.initial 1) with
  | (.ok session, world) => lines.foldlM (fun reached line =>
      (next? reached.1 reached.2.1 line).map fun found =>
        (found.1, found.2.1, reached.2.2 ++ reached.1.noted reached.2.1 line)) (session, world, [])
  | _ => none

theorem answer_of_next? {session session' : Session} {line : String} {shown : List String}
    (h : next? session world line = some (session', world', shown)) :
    (session.answer line).run world = (.ok (.lines session' shown), world') ∧
      world'.effects.calls = world.effects.calls := by
  unfold next? at h
  split at h
  · next hr =>
    split at h
    · next hcalls =>
      cases h
      exact ⟨hr, hcalls⟩
    · cases h
  · cases h

theorem conversation_of_conversed? {lines : List String} {session : Session}
    (h : conversed? lines = some (session, world, notes)) : Conversation session world notes := by
  unfold conversed? at h
  split at h
  · next first start hr =>
    have hfirst : Conversation first start [] := .start hr
    revert hfirst h
    generalize ([] : List Note) = noted
    intro h hfirst
    clear hr
    induction lines generalizing first start noted with
    | nil =>
      cases h
      exact hfirst
    | cons line rest ih =>
      rw [List.foldlM_cons] at h
      obtain ⟨reached, hreached, hrest⟩ := Option.bind_eq_some_iff.mp h
      obtain ⟨⟨session', world', shown⟩, hnext, rfl⟩ := Option.map_eq_some_iff.mp hreached
      obtain ⟨hline, hcalls⟩ := answer_of_next? hnext
      exact ih _ _ _ hrest (hfirst.line hline hcalls)
  · cases h

/-! ## What is shown -/

/-- The lines show the templates. -/
theorem Tracked.shown (h : Tracked world scope notes) :
    List.Forall₂ (Note.Shown world.store scope) notes ((numbered notes).map (watchLine world)) := by
  refine List.forall₂_iff_get.mpr ⟨by simp [numbered], fun id hnote hline => ?_⟩
  have hlt : id < world.watches.length := h.count ▸ hnote
  have hwatch := List.getElem?_eq_getElem hlt
  have htracks := h.tracks id notes[id] world.watches[id] (List.getElem?_eq_getElem hnote) hwatch
  have hcurrent := h.fresh id _ hwatch htracks.held List.not_mem_nil
  have hshown := htracks.shown h.wired.orderly h.native h.root hcurrent
  simpa [numbered, watchLine, hwatch] using hshown

/-- **What is shown after a name is set.**  In a conversation without calls of impure functions a line that
sets a name overflows, or it shows all templates that are watched, in the order in which they were asked for
and behind one message at most.  Each has the text that it has without the names that have been bound since
it was asked for; and if it mentions none of these, the text that it has. -/
theorem Conversation.set_shows {session : Session} (h : Conversation session world notes) {line : String}
    {arguments : List Char} (hset : Command.ofLine (Text.trim line.toList) = .set arguments)
    {result : Except Fault Reply} (hr : (session.answer line).run world = (result, world'))
    (hsilent : world'.effects.calls = world.effects.calls) :
    (∃ x, result = .error x ∧ x.IsOverflow) ∨
    ∃ own shown, result = .ok (.lines session (own ++ shown)) ∧ own.length ≤ 1 ∧
      List.Forall₂ (Note.Shown world'.store session.scope) notes shown := by
  have hfollows := h.follows
  rcases answer_cases hr with ⟨hempty, -, -⟩ | ⟨hquit, -⟩ | ⟨outcome, hrun, rfl⟩
  · rw [hempty] at hset
    cases hset
  · rw [hset] at hquit
    cases hquit
  · rw [hset] at hrun
    rcases hfollows.tracked.set hrun (congrArg List.length hsilent) with
      ⟨x, rfl, hx⟩ | ⟨own, rfl, hown, htracked⟩
    · exact .inl ⟨x, rfl, hx⟩
    · refine .inr ⟨own, _, rfl, hown, ?_⟩
      rw [hfollows.watches]
      exact htracked.shown

theorem set_shows_of_items : ∃ session world notes session' world', Conversation session world notes ∧
    (session.answer ":set x 3").run world =
      (.ok (.lines session' ["  $\x7bx\x7d items => 3 items"]), world') ∧
    List.Forall₂ (Note.Shown world'.store session.scope) notes ["  $\x7bx\x7d items => 3 items"] := by
  have hsome : ((conversed? [":set x 2", ":watch $\x7bx\x7d items"]).any fun reached =>
    reached.2.2.length == 1 && (next? reached.1 reached.2.1 ":set x 3").any fun found =>
      found.2.2 == ["  $\x7bx\x7d items => 3 items"]) = true := by decide +kernel
  obtain ⟨⟨session, world, notes⟩, hreached, hholds⟩ := (Option.any_eq_true _ _).mp hsome
  obtain ⟨hcount, hnext⟩ := (Bool.and_eq_true _ _).mp hholds
  obtain ⟨⟨session', world', lines⟩, hfound, hlines⟩ := (Option.any_eq_true _ _).mp hnext
  obtain rfl : lines = _ := eq_of_beq hlines
  obtain ⟨hanswer, hcalls⟩ := answer_of_next? hfound
  have hconversation := conversation_of_conversed? hreached
  refine ⟨session, world, notes, session', world', hconversation, hanswer, ?_⟩
  have hset : Command.ofLine (Text.trim ":set x 3".toList) = .set ['x', ' ', '3'] := by decide
  rcases hconversation.set_shows hset hanswer hcalls with ⟨x, hx, -⟩ | ⟨own, shown, heq, -, hall⟩
  · cases hx
  · -- one template is watched; so the one line that is shown is its line
    have hone : shown.length = 1 := hall.length_eq.symm.trans (eq_of_beq hcount)
    obtain ⟨-, heq⟩ := Reply.lines.inj (Except.ok.inj heq)
    have hnone : own = [] := by
      have hlength := congrArg List.length heq
      simp only [List.length_append, List.length_singleton, hone] at hlength
      exact List.length_eq_zero_iff.mp (by omega)
    rw [heq, hnone, List.nil_append]
    exact hall

/-- **A name that is set later shows nowhere**: the template has a text by then, and it is shown without. -/
theorem set_shows_no_new_name : ∃ session world notes session' world', Conversation session world notes ∧
    notes.map Note.source = ["$\x7bx\x7d"] ∧
    (session.answer ":set x 5").run world = (.ok (.lines session' ["  $\x7bx\x7d => "]), world') ∧
    world'.effects.calls = world.effects.calls ∧
    ∃ v e, (Template.evaluate world'.store session.scope "$\x7bx\x7d").run world'.effects = (.ok v, e) ∧
      v.toText = "5" := by
  have hsome : ((conversed? [":watch $\x7bx\x7d"]).any fun reached =>
    reached.2.2.map Note.source == ["$\x7bx\x7d"] &&
      (next? reached.1 reached.2.1 ":set x 5").any fun found => found.2.2 == ["  $\x7bx\x7d => "] &&
        ((Template.evaluate found.2.1.store reached.1.scope "$\x7bx\x7d").run
          found.2.1.effects).1.toOption.any fun v => v.toText == "5") = true := by decide +kernel
  obtain ⟨⟨session, world, notes⟩, hreached, hholds⟩ := (Option.any_eq_true _ _).mp hsome
  obtain ⟨hsource, hnext⟩ := (Bool.and_eq_true _ _).mp hholds
  obtain ⟨⟨session', world', lines⟩, hfound, hholds⟩ := (Option.any_eq_true _ _).mp hnext
  obtain ⟨hlines, hevaluates⟩ := (Bool.and_eq_true _ _).mp hholds
  obtain rfl : lines = _ := eq_of_beq hlines
  obtain ⟨hanswer, hcalls⟩ := answer_of_next? hfound
  dsimp only at hevaluates
  rcases heval : (Template.evaluate world'.store session.scope "$\x7bx\x7d").run world'.effects with
    ⟨x | v, e⟩ <;> rw [heval] at hevaluates
  · cases hevaluates
  · exact ⟨session, world, notes, session', world', conversation_of_conversed? hreached,
      eq_of_beq hsource, hanswer, hcalls, v, e, heval, eq_of_beq hevaluates⟩

end LiveTemplate.Session
