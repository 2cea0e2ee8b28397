import LiveTemplate.Expression.Template
import LiveTemplate.Proofs.Grammar.Within
import LiveTemplate.Proofs.Run.Related
import LiveTemplate.Proofs.Text.Position
/-!
# Where a template is rejected

A template is rejected only inside an expression: a rule has begun to read one, has committed itself,
and does not find what it expects.  So the place that is reported lies behind the mark of some
expression, between two characters of the source, and the position says in which line and column it
is.  That text was left unread is never reported, for the grammar of templates leaves none.
-/

set_option autoImplicit false

namespace LiveTemplate.Template

open Run (Ends)

variable {store : Store} {scope : ScopeId} {source : String}

/-- A text is rejected for the mistake that the grammar met, where it met it. -/
theorem parse_error_ends (store : Store) (scope : ScopeId) (source : String) :
    Ends (fun result => ∀ mistake, result = .error mistake →
      ∃ script cause rest, Grammar.read source.toList = (script, some (cause, rest)) ∧
        mistake = SyntaxError.atOffset cause source
          (source.utf8ByteSize - Position.byteLength rest)) (fun _ => True)
      (parse store scope source) := by
  unfold parse
  generalize Grammar.read source.toList = reading
  obtain ⟨script, mistake⟩ := reading
  refine (Ends.any _).bind fun steps _ => (Ends.any _).bind fun regions _ => ?_
  cases mistake with
  | some mistake =>
    refine .pure fun found hfound => ⟨script, mistake.1, mistake.2, rfl, ?_⟩
    exact (Except.error.inj hfound).symm
  | none => exact (Ends.any _).bind fun v _ => .pure nofun

/-- **Every rejection is a committed one.**  The grammar of templates either reads a source to its end
or fails for good; it neither declines nor leaves anything unread.  When a source is rejected in some
scope, the cause is what a rule expected.  The place is the one where that rule failed: a cut between
two characters behind the mark of some expression, at the offset that the text before the cut is
long.  Its position counts the line breaks before the cut, and the characters of the last line there. -/
theorem parse_rejects_behind_mark (store : Store) (scope : ScopeId) (source : String) :
    ((∃ script, Grammar.template source.toList = .done () [] script) ∨
      ∃ cause rest script, Grammar.template source.toList = .failed cause rest script) ∧
    ∀ e e' mistake, (parse store scope source).run e = (.ok (.error mistake), e') →
      mistake.cause ≠ .unexpected ∧ mistake.cause ≠ .unexpectedBeforeEnd ∧
      ∃ before rest script, Grammar.template source.toList = .failed mistake.cause rest script ∧
        source.toList = before ++ rest ∧ ['$', '\x7b'] <:+: before ∧
        mistake = SyntaxError.atOffset mistake.cause source (Position.byteLength before) ∧
        mistake.position.line = 1 + before.count '\n' ∧
        ∃ line, Position.EndsWithLine before line ∧ mistake.position.column = 1 + line.length := by
  have hends := Grammar.template_ends source.toList
  cases htemplate : Grammar.template source.toList with
  | done _ rest script =>
    rw [htemplate] at hends
    obtain rfl : rest = [] := hends
    refine ⟨.inl ⟨script, rfl⟩, fun e e' mistake hr => ?_⟩
    obtain ⟨_, _, _, hread, -⟩ := (parse_error_ends store scope source).value hr mistake rfl
    rw [Grammar.read, htemplate] at hread
    cases hread
  | declined script =>
    rw [htemplate] at hends
    exact hends.elim
  | failed cause rest script =>
    rw [htemplate] at hends
    obtain ⟨⟨hleft, hends⟩, before, hsplit, hmark⟩ := hends
    refine ⟨.inr ⟨cause, rest, script, rfl⟩, fun e e' mistake hr => ?_⟩
    obtain ⟨_, _, _, hread, rfl⟩ := (parse_error_ends store scope source).value hr mistake rfl
    rw [Grammar.read, htemplate] at hread
    cases hread
    rw [Position.offset_of_rest hsplit]
    have hposition := Position.ofOffset_byteLength hsplit
    obtain ⟨line, hline⟩ := Position.exists_line before
    refine ⟨hleft, hends, before, rest, script, rfl, hsplit, hmark, rfl, ?_, line, hline, ?_⟩
    · show (Position.ofOffset source _).line = _
      rw [hposition, Nat.add_comm]
      rfl
    · show (Position.ofOffset source _).column = _
      rw [hposition, hline.column, Nat.add_comm]

/-- The mistake for which a text is rejected, if it is and nothing overflows. -/
def rejected? (store : Store) (scope : ScopeId) (source : String) (e : Effects) :
    Option SyntaxError :=
  match (parse store scope source).run e with
  | (.ok (.error mistake), _) => some mistake
  | _ => none

theorem parse_of_rejected? {e : Effects} {mistake : SyntaxError}
    (h : rejected? store scope source e = some mistake) :
    ∃ e', (parse store scope source).run e = (.ok (.error mistake), e') := by
  unfold rejected? at h
  split at h
  · next found e' hr =>
    obtain rfl : found = mistake := Option.some.inj h
    exact ⟨e', hr⟩
  · cases h

/-- The second expression of the text ends too early, in the second line. -/
theorem parse_rejects_behind_mark_of_lines :
    let source := "$\x7b'é'\x7d\n$\x7b2 +\x7d"
    let mistake : SyntaxError := ⟨.operandAfterSum, ⟨2, 6⟩⟩
    (∃ e', (parse Store.empty 0 source).run (Effects.initial 1) = (.ok (.error mistake), e')) ∧
    mistake.cause ≠ .unexpected ∧
    ∃ before rest script, Grammar.template source.toList = .failed mistake.cause rest script ∧
      source.toList = before ++ rest ∧ ['$', '\x7b'] <:+: before ∧
      mistake = SyntaxError.atOffset mistake.cause source (Position.byteLength before) := by
  intro source mistake
  have hrejected : rejected? Store.empty 0 source (Effects.initial 1) = some mistake := by
    decide +kernel
  obtain ⟨e', hr⟩ := parse_of_rejected? hrejected
  obtain ⟨hleft, -, before, rest, script, htemplate, hsplit, hmark, hplace, -⟩ :=
    (parse_rejects_behind_mark Store.empty 0 source).2 _ _ _ hr
  exact ⟨⟨e', hr⟩, hleft, before, rest, script, htemplate, hsplit, hmark, hplace⟩

end LiveTemplate.Template
