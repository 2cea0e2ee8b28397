import Mathlib
import LiveTemplate.Proofs.Syntax.Meaning
/-!
# Reading a template is building its tree

`Template.parse` makes no tree.  It lets the grammar emit steps, and the machine of regions takes
them, folding operators as they come.  Here the two are shown to do what the textbook does in two
steps: read the text into a syntax tree by the documented grammar, and build the value of the tree
from its leaves upwards.

The proof is put together from three parts.  The grammar reads in step with the reader of trees,
and what it emits leads the machine on terms to the terms of the segments.  The machine on values
follows the machine on terms.  And building a tree follows its term.

Nothing is lost by speaking of accepted texts only: the same texts are rejected by both, with the
same mistake at the same place.
-/

set_option autoImplicit false

namespace LiveTemplate

open Value
open Run (Ends)

namespace Regions

/-- The outermost region is closed like a quoted text. -/
theorem finish_terms (segments : List Term) :
    (Regions.empty.pushAll segments).finish Term.builder = pure (Term.joined segments) := by
  have houter := pushAll_outer Regions.empty segments
  have hoperands := pushAll_current_operands Regions.empty segments
  have hoperators := pushAll_current_operators Regions.empty segments
  revert houter hoperands hoperators
  rcases Regions.empty.pushAll segments with ⟨⟨operands, operators⟩, outer⟩
  simp only [empty, Region.empty, List.append_nil]
  rintro rfl rfl rfl
  unfold finish
  rw [Term.combine_text, List.reverse_reverse]

end Regions

namespace Grammar

/-- **The grammar and the reader of trees agree on every text**: on whether it is accepted, on the
mistake and its place if it is not, and on the operands that the machine holds at the end. -/
theorem read_agrees (text : List Char) :
    ∃ last, Takes Regions.empty (read text).1 last ∧
      match (read text).2 with
      | none => ∃ segments, TreeGrammar.read text = .ok (.text segments) ∧
          last = Regions.empty.pushAll (Tree.terms segments)
      | some mistake => TreeGrammar.read text = .error mistake := by
  have hmirrored := template_reads (Regions.clear_empty .access) text
  unfold read TreeGrammar.read
  revert hmirrored
  generalize template text = outcome, TreeGrammar.template text = outcome'
  intro hmirrored
  cases hmirrored with
  | @done _ segments rest script _ last ht hlast =>
    refine ⟨last, ?_⟩
    cases rest with
    | nil => exact ⟨ht, segments, rfl, by rw [hlast, Tree.terms_eq_flatMap]; rfl⟩
    | cons c rest => exact ⟨ht, rfl⟩
  | declined hd => exact hd.elim
  | failed ht => exact ⟨_, ht, rfl⟩

end Grammar

namespace Template

variable {store : Store} {scope : ScopeId} {source : String}

/-- What reading a text can end in: a value that the term of its tree gives, the mistake for which
no tree can be read, or the overflow of a day count. -/
theorem parse_ends (store : Store) (scope : ScopeId) (source : String) :
    Ends (fun result => match result with
      | .ok v => ∃ tree, TreeGrammar.read source.toList = .ok tree ∧ tree.term.Gives store scope v
      | .error mistake => ∃ cause rest, TreeGrammar.read source.toList = .error (cause, rest) ∧
          mistake = SyntaxError.atOffset cause source
            (source.utf8ByteSize - Position.byteLength rest)) Fault.IsOverflow
      (parse store scope source) := by
  obtain ⟨last, ht, hread⟩ := Grammar.read_agrees source.toList
  unfold parse
  revert ht hread
  generalize Grammar.read source.toList = reading
  obtain ⟨script, mistake⟩ := reading
  intro ht hread
  refine ((ofScript_ends script).mono (fun _ h => h) fun _ hf => hf.elim).bind fun steps hsteps => ?_
  refine (run_follows hsteps (Regions.empty_corresponds _) ht).bind fun regions hregions => ?_
  cases mistake with
  | some mistake => exact .pure ⟨mistake.1, mistake.2, hread, rfl⟩
  | none =>
    obtain ⟨segments, hsegments, rfl⟩ := hread
    have hfinish := Regions.finish_related (builder_gives store scope) hregions
    rw [Regions.finish_terms] at hfinish
    exact hfinish.ends_of_pure.bind fun v hv => .pure ⟨.text segments, hsegments, hv⟩

/-- A text is rejected for the mistake for which no tree can be read, at the place where it was
met. -/
theorem parse_rejects {e e' : Effects} {mistake : SyntaxError}
    (h : (parse store scope source).run e = (.ok (.error mistake), e')) :
    ∃ cause rest, TreeGrammar.read source.toList = .error (cause, rest) ∧
      mistake = SyntaxError.atOffset cause source
        (source.utf8ByteSize - Position.byteLength rest) :=
  (parse_ends store scope source).value h

/-- The value that a text is read to, if it is accepted and nothing overflows. -/
def parsed? (store : Store) (scope : ScopeId) (source : String) (e : Effects) : Option Value :=
  match (parse store scope source).run e with
  | (.ok (.ok v), _) => some v
  | _ => none

theorem parse_of_parsed? {e : Effects} {v : Value} (h : parsed? store scope source e = some v) :
    ∃ e', (parse store scope source).run e = (.ok (.ok v), e') := by
  unfold parsed? at h
  split at h
  · next w e' hr =>
    obtain rfl : w = v := Option.some.inj h
    exact ⟨e', hr⟩
  · cases h

/-- **Reading is building the tree.**  For every text that is accepted there is a tree, read by the
documented grammar, and building it from its leaves upwards, in whatever effects, succeeds with a
value that differs in references only. -/
theorem parse_builds_tree {e e' : Effects} {v : Value}
    (h : (parse store scope source).run e = (.ok (.ok v), e')) :
    ∃ tree, TreeGrammar.read source.toList = .ok tree ∧
      Ends (fun w => Alike v w) Run.Never (tree.build store scope) := by
  obtain ⟨tree, hread, hgives⟩ := (parse_ends store scope source).value h
  exact ⟨tree, hread, tree.build_anew hgives⟩

theorem parse_builds_tree_of_text :
    ∃ tree, TreeGrammar.read "$\x7bfalse || 'b' ?? 'c'\x7d items".toList = .ok tree ∧
      Ends (fun w => Alike (.text "b items") w) Run.Never (tree.build Store.empty 0) :=
  parse_builds_tree (show (parse Store.empty 0 "$\x7bfalse || 'b' ?? 'c'\x7d items").run
    (Effects.initial 1) = (.ok (.ok (.text "b items")), Effects.initial 1) by cbv)

end Template

end LiveTemplate
