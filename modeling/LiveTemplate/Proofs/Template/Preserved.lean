import LiveTemplate.Proofs.Operator.Kept
import LiveTemplate.Proofs.Operator.Merge
import LiveTemplate.Proofs.Operator.Parallel
import LiveTemplate.Proofs.Syntax.Sound
import LiveTemplate.Proofs.Template.Interpreter
import LiveTemplate.Proofs.Template.Literal
import LiveTemplate.Proofs.Template.Success
/-!
# The text of a template is preserved

A template has pieces: literal text, and expressions in braces.  Each piece has a present value, which
is what its tree evaluates to when it is built by itself, and evaluating the template merges these, from
the left to the right.  It does not matter that all pieces are built before any is evaluated, nor which
of them are computed ahead: building is silent, and a tree that is built a second time is evaluated
alike.

So literal text comes out as it stands, with the texts of the other pieces at their places.  Whether
what comes out *is* a text is another matter.  An expression with nothing beside it keeps its value, and
so does one that has only empty texts beside it.
-/

set_option autoImplicit false

namespace LiveTemplate

open Value
open Run (Ends Related)

variable {store : Store} {scope : ScopeId}

namespace Tree

/-- The present value of a tree: it is built, and what was built is evaluated. -/
def present (store : Store) (scope : ScopeId) (tree : Tree) : Run Value := do
  (← tree.build store scope).eval store

/-- The present values of trees, the first one first. -/
def presentAll (store : Store) (scope : ScopeId) : List Tree → Run (List Value)
  | [] => pure []
  | tree :: rest => do
    let value ← tree.present store scope
    return value :: (← presentAll store scope rest)

/-- What a piece of a template shows: literal text itself, braces the text of what is in them, and
nothing if nothing is in them. -/
def shown (store : Store) (scope : ScopeId) : Tree → Run String
  | .leaf (.text raw) => pure raw
  | .binding (.leaf (.text _)) => pure ""
  | .binding content => do return (← content.present store scope).toText
  | _ => pure ""

/-- What the pieces of a template show, one after another. -/
def shownAll (store : Store) (scope : ScopeId) : List Tree → Run String
  | [] => pure ""
  | piece :: rest => do
    let text ← piece.shown store scope
    return text ++ (← shownAll store scope rest)

theorem shown_eq {quote : Option Char} {piece : Tree} {text : List Char}
    (h : piece.SpelledPiece quote text) :
    piece.shown store scope = do return (← piece.present store scope).toText := by
  match piece with
  | .leaf (.text raw) => rfl
  | .binding (.leaf (.text raw)) =>
    obtain ⟨_, _, _, -, hcontent | ⟨hempty, -⟩, -⟩ := h
    · exact hcontent.elim
    · cases hempty
      rfl
  | .binding (.leaf .null) | .binding (.leaf (.truth _)) | .binding (.leaf (.number _))
  | .binding (.leaf (.dimension _ _)) | .binding (.leaf (.name _)) | .binding (.binding _)
  | .binding (.text _) | .binding (.group _) | .binding (.array _) | .binding (.map _)
  | .binding (.field _ _) | .binding (.index _ _) | .binding (.call _ _) | .binding (.sign _ _)
  | .binding (.binary _ _ _) | .binding (.choice _ _ _) => rfl
  | .leaf .null | .leaf (.truth _) | .leaf (.number _) | .leaf (.dimension _ _) | .leaf (.name _)
  | .text _ | .group _ | .array _ | .map _ | .field _ _ | .index _ _ | .call _ _ | .sign _ _
  | .binary _ _ _ | .choice _ _ _ => exact h.elim

theorem shownAll_eq {quote : Option Char} {pieces : List Tree} {text : List Char}
    (h : SpelledPieces quote pieces text) :
    shownAll store scope pieces
      = do return String.join ((← presentAll store scope pieces).map toText) := by
  induction pieces generalizing text with
  | nil => rfl
  | cons piece rest ih =>
    obtain ⟨first, more, hpiece, hmore, -⟩ := h
    simp [shownAll, presentAll, shown_eq hpiece, ih hmore]

/-- Literal text is present as it stands. -/
theorem presentAll_literal (pieces : List Tree) :
    Ends (fun ws => ∀ raw, .leaf (.text raw) ∈ pieces → .text raw ∈ ws) (fun _ => True)
      (presentAll store scope pieces) := by
  induction pieces with
  | nil => exact .pure fun raw hmem => nomatch hmem
  | cons piece rest ih =>
    have hpiece : Ends (fun v => ∀ raw, piece = .leaf (.text raw) → v = .text raw) (fun _ => True)
        (piece.present store scope) := by
      by_cases hliteral : ∃ raw, piece = .leaf (.text raw)
      · obtain ⟨raw, rfl⟩ := hliteral
        exact .pure fun raw' h => by cases h; rfl
      · exact (Ends.any _).mono (fun v _ raw h => absurd ⟨raw, h⟩ hliteral) fun _ hx => hx
    refine hpiece.bind fun v hv => ih.bind fun ws hws => .pure fun raw hmem => ?_
    rcases List.mem_cons.mp hmem with heq | hmem
    · rw [hv raw heq.symm]
      exact List.mem_cons_self
    · exact List.mem_cons_of_mem _ (hws raw hmem)

/-- Whatever the term of a tree gives is evaluated like the tree. -/
theorem present_of_gives (tree : Tree) {v : Value} (hv : tree.term.Gives store scope v) :
    Related Effects.Agree Run.Never (bareBlur store).Like (v.eval store) (tree.present store scope) := by
  have hends : Ends (fun w => tree.term.Gives store scope w) Run.Never (tree.build store scope) :=
    (tree.build_gives.both (tree.build_anew hv)).mono (fun _ h => h.1) fun _ h => h.2
  have hpresent : Related Effects.Agree Run.Never (bareBlur store).Like (tree.present store scope)
      (v.eval store) :=
    Related.skip (fun e => tree.build_steady (Effects.loose_beside e e)) hends fun w hw =>
      (tree.term.gives_parallel hw hv).eval
  exact hpresent.symm.mono fun _ _ h => h.symm

theorem presentAll_of_gives (trees : List Tree) {vs : List Value}
    (hvs : Term.GivesAll store scope (terms trees) vs) :
    Related Effects.Agree Run.Never (bareBlur store).LikeAll (Operator.runAll (evaluations store vs))
      (presentAll store scope trees) := by
  induction trees generalizing vs with
  | nil =>
    obtain rfl : vs = [] := hvs
    exact .pure rfl
  | cons tree rest ih =>
    obtain ⟨v, ws, rfl, hv, hws⟩ := hvs
    exact (tree.present_of_gives hv).bind fun _ _ hab => (ih hws).bind fun _ _ habs =>
      .pure (congrArg₂ List.cons hab habs)

/-- Joined values are evaluated one by one, and merged. -/
theorem joined_eval {vs : List Value} {v : Value} {e e' : Effects}
    (hr : (joined store vs).run e = (.ok v, e')) :
    v.eval store = do return mergeAll (← Operator.runAll (evaluations store vs)) := by
  rcases vs with _ | ⟨first, _ | ⟨second, rest⟩⟩
  · cases hr
    rfl
  · cases hr
    simp [evaluations, Operator.runAll, mergeAll]
  · have hr : (Operator.build store .merge (first :: second :: rest)).run e = (.ok v, e') := hr
    generalize first :: second :: rest = vs at hr ⊢
    unfold Operator.build at hr
    by_cases hc : Operator.isConstant store .merge vs = true
    · -- the values are their own evaluations, and so is what is merged of them
      have hfree := Operator.free_of_isConstant hc
      rw [if_pos hc, Operator.apply, Operator.evaluations_of_free hfree] at hr
      have hmerged : (pure (mergeAll vs) : Run Value).run e = (.ok v, e') := by
        rw [← hr]
        show _ = (Operator.runAll (vs.map pure) >>= Operator.applyStrict store .merge).run e
        rw [Operator.runAll_pure]
        rfl
      cases hmerged
      rw [eval_eq_pure ((semiclosed_free store).mergeAll hfree), Operator.evaluations_of_free hfree,
        Operator.runAll_pure]
      rfl
    · rw [if_neg hc] at hr
      cases hr
      rfl

/-- **The pieces of a text are evaluated one by one, and merged.** -/
theorem text_of_gives (pieces : List Tree) {v : Value} (hv : (text pieces).term.Gives store scope v) :
    Related Effects.Agree Run.Never (fun w ws => (bareBlur store).Like w (mergeAll ws)) (v.eval store)
      (presentAll store scope pieces) := by
  obtain ⟨vs, hvs, e, e', hr⟩ := Term.gives_joined hv
  rw [joined_eval hr, ← bind_pure (presentAll store scope pieces)]
  exact (presentAll_of_gives pieces hvs).bind fun _ _ habs => .pure habs.mergeAll

end Tree

namespace Template

variable {source : String} {tree : Tree} {pieces : List Tree}

/-- Evaluating a text goes like evaluating what its term gives. -/
theorem evaluate_of_gives {β : Type} {lone : Fault → Prop} {R : Value → β → Prop} {d : Run β}
    (hread : TreeGrammar.read source.toList = .ok tree) (hvalue : tree.term.HasValue store scope)
    (h : ∀ v, tree.term.Gives store scope v → Related Effects.Agree lone R (v.eval store) d) :
    Related Effects.Agree lone R (evaluate store scope source) d := by
  unfold evaluate
  rw [read_eq_parse]
  have hsteady (e : Effects) : Corresponds _ _ _ store store scope scope :=
    corresponds_steady (Effects.loose_beside e e)
  refine Related.skip (fun e => (hsteady e).parse source) (parse_succeeds hread hvalue) ?_
  rintro _ ⟨v, rfl, hv⟩
  exact h v hv

/-- The pieces of a text that is accepted, and how it is evaluated. -/
theorem pieces_of_parse {e e' : Effects} {v : Value}
    (hr : (parse store scope source).run e = (.ok (.ok v), e')) :
    ∃ pieces, Tree.IsTemplate pieces source.toList ∧
      (Tree.text pieces).term.HasValue store scope ∧
      Related Effects.Agree Run.Never (fun w ws => (bareBlur store).Like w (mergeAll ws))
        (evaluate store scope source) (Tree.presentAll store scope pieces) := by
  obtain ⟨tree, hread, hgives⟩ := (parse_ends store scope source).value hr
  obtain ⟨pieces, rfl, htemplate, -⟩ := TreeGrammar.read_ok_iff.mp hread
  exact ⟨pieces, htemplate, ⟨v, hgives⟩,
    evaluate_of_gives hread ⟨v, hgives⟩ fun w hw => Tree.text_of_gives pieces hw⟩

/-- **The text of a template is preserved.**  A text that is accepted is a template in one way only.
What evaluating it shows is what its pieces show, one after another, with the same random numbers drawn
and the same impure functions called; and if it ends in a fault, this is the fault that the first of its
pieces ends in that ends in one.  A template with one expression and nothing else is evaluated like the
expression.  A text without expressions is read to itself, whether the grammar sees it or not. -/
theorem evaluate_shows_pieces (store : Store) (scope : ScopeId) (source : String) :
    (∀ e e' v, (parse store scope source).run e = (.ok (.ok v), e') →
      ∃ pieces, Tree.IsTemplate pieces source.toList ∧
        (∀ others, Tree.IsTemplate others source.toList → others = pieces) ∧
        Related Effects.Agree Run.Never (fun w text => w.toText = text) (evaluate store scope source)
          (Tree.shownAll store scope pieces) ∧
        ∀ content, pieces = [.binding content] →
          Related Effects.Agree Run.Never (bareBlur store).Like (evaluate store scope source)
            (content.present store scope)) ∧
    (isTemplate source = false → parse store scope source = pure (.ok (.text source))) ∧
    read store scope source = parse store scope source := by
  refine ⟨fun e e' v hr => ?_, parse_literal, read_eq_parse store scope source⟩
  obtain ⟨pieces, htemplate, -, hevaluate⟩ := pieces_of_parse hr
  refine ⟨pieces, htemplate, fun others hothers => TreeGrammar.template_unique hothers htemplate, ?_, ?_⟩
  · rw [Tree.shownAll_eq htemplate.spelled, ← bind_pure (evaluate store scope source)]
    refine hevaluate.bind fun w ws hw => .pure ?_
    rw [hw.congr toText_outline, toText_mergeAll]
  · rintro content rfl
    have hsingle : (do return mergeAll (← Tree.presentAll store scope [.binding content]))
        = content.present store scope := by
      simp only [Tree.presentAll, pure_bind, bind_assoc, mergeAll, List.foldl_nil]
      exact bind_pure _
    rw [← hsingle, ← bind_pure (evaluate store scope source)]
    exact hevaluate.bind fun _ _ hw => .pure hw

theorem evaluate_shows_pieces_of_text :
    let source := "a$\x7b'b'\x7dc$\x7b\x7d"
    (parse Store.empty 0 source).run (Effects.initial 1) = (.ok (.ok (.text "abc")), Effects.initial 1) ∧
    (∃ pieces, Tree.IsTemplate pieces source.toList ∧
      Related Effects.Agree Run.Never (fun w text => w.toText = text) (evaluate Store.empty 0 source)
        (Tree.shownAll Store.empty 0 pieces)) ∧
    isTemplate "abc" = false ∧ parse Store.empty 0 "abc" = pure (.ok (.text "abc")) := by
  have hr : (parse Store.empty 0 "a$\x7b'b'\x7dc$\x7b\x7d").run (Effects.initial 1)
      = (.ok (.ok (.text "abc")), Effects.initial 1) := by cbv
  obtain ⟨hpieces, -⟩ := evaluate_shows_pieces Store.empty 0 "a$\x7b'b'\x7dc$\x7b\x7d"
  obtain ⟨pieces, htemplate, -, hshown, -⟩ := hpieces _ _ _ hr
  have hplain : isTemplate "abc" = false := by decide
  exact ⟨hr, ⟨pieces, htemplate, hshown⟩, hplain, (evaluate_shows_pieces Store.empty 0 "abc").2.1 hplain⟩

/-! ## Which templates are texts -/

/-- What the merged value of pieces is, by their present values. -/
structure Merged (store : Store) (pieces : List Tree) (w : Value) (ws : List Value) : Prop where
  value : (bareBlur store).Like w (mergeAll ws)
  /-- It is a text, unless something is let through that is none. -/
  text : w.IsText ↔ ∀ v, LetThrough ws v → v.IsText
  /-- What is let through, and is no text, it is itself. -/
  through : ∀ v, LetThrough ws v → ¬v.IsText → (bareBlur store).Like w v
  /-- With literal text it is a text. -/
  literal : ∀ raw, raw ≠ "" → .leaf (.text raw) ∈ pieces → w.IsText

theorem Merged.of_like {w : Value} {ws : List Value} (h : (bareBlur store).Like w (mergeAll ws))
    (hliteral : ∀ raw, .leaf (.text raw) ∈ pieces → .text raw ∈ ws) : Merged store pieces w ws := by
  have hsame : w.IsText ↔ (mergeAll ws).IsText := by
    constructor
    · rintro ⟨s, rfl⟩
      exact ⟨s, h.symm.eq_of_scalar rfl (by simp)⟩
    · rintro ⟨s, hs⟩
      rw [hs] at h
      exact ⟨s, h.eq_of_scalar rfl (by simp)⟩
  refine ⟨h, ?_, fun v hv hno => (mergeAll_eq_iff hno).mpr hv ▸ h, fun raw hraw hmem => ?_⟩
  · rw [hsame]
    constructor
    · intro htext v hv
      by_contra hno
      rw [(mergeAll_eq_iff hno).mpr hv] at htext
      exact hno htext
    · intro hall
      by_contra hno
      exact hno (hall _ ((mergeAll_eq_iff hno).mp rfl))
  · obtain ⟨t, -, ht⟩ := mergeAll_of_mem hraw (hliteral raw hmem)
    exact hsame.mpr ⟨t, ht⟩

theorem merged_of_related {c : Run Value}
    (h : Related Effects.Agree Run.Never (fun w ws => (bareBlur store).Like w (mergeAll ws)) c
      (Tree.presentAll store scope pieces)) :
    Related Effects.Agree Run.Never (Merged store pieces) c (Tree.presentAll store scope pieces) :=
  (h.strengthen (.any c) (Tree.presentAll_literal pieces)).mono fun _ _ hw => .of_like hw.1 hw.2.2

end Template

end LiveTemplate
