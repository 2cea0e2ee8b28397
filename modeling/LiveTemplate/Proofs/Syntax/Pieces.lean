import LiveTemplate.Proofs.Syntax.ReadBack
/-!
# Spelling a template

A template is written as its pieces one after another: literal text, and expressions in braces.  The
pieces of a quoted text are written in the same way, but for the quotation mark, which its literal
text must not hold.  So the two are one here, with a quotation mark or without.

Nothing is between the pieces.  Two literal texts side by side would be one, and are not pieces of a
template.
-/

set_option autoImplicit false

namespace LiveTemplate

namespace Tree

/-- The text spells a piece: literal text in which no expression starts, or an expression in braces,
or braces with nothing in them, which the empty text stands for. -/
def SpelledPiece (quote : Option Char) : Tree → List Char → Prop
  | leaf (.text raw) => fun text =>
    text = raw.toList ∧ text ≠ [] ∧ (∀ q ∈ quote, q ∉ text) ∧ ¬['$', '\x7b'] <:+: text
  | binding content => Enclosed ['$', '\x7b'] ['\x7d'] fun text =>
    content.Spelled text ∨ content = leaf (.text "") ∧ text = []
  | _ => fun _ => False

/-- The text spells the pieces, one after another. -/
def SpelledPieces (quote : Option Char) : List Tree → List Char → Prop
  | [] => fun text => text = []
  | piece :: rest => fun text => ∃ first more, piece.SpelledPiece quote first ∧ SpelledPieces quote rest more ∧
    (piece.isLiteral = true → ∀ next ∈ rest.head?, next.isLiteral = false) ∧ text = first ++ more

theorem spelledPiece_quote {quote : Char} {tree : Tree} {text : List Char} :
    tree.SpelledPiece (some quote) text ↔ tree.SpelledSegment quote text := by
  cases tree with
  | leaf operand => cases operand <;> simp [SpelledPiece, SpelledSegment, IsRaw]
  | _ => exact Iff.rfl

theorem spelledPieces_quote {quote : Char} {trees : List Tree} {text : List Char} :
    SpelledPieces (some quote) trees text ↔ SpelledSegments quote trees text := by
  induction trees generalizing text with
  | nil => exact Iff.rfl
  | cons tree rest ih => simp only [SpelledPieces, SpelledSegments, spelledPiece_quote, ih]

/-- The tree is a template that the text spells. -/
structure IsTemplate (pieces : List Tree) (text : List Char) : Prop where
  spelled : SpelledPieces none pieces text
  fits : FitsAll pieces

end Tree

namespace TreeGrammar

open Grammar
open Grammar.Rule

variable {pieces : List Tree} {text rest : List Char} {depth : Nat}

/-- What follows literal text is the end of the template or an expression. -/
theorem pieces_start (h : Tree.SpelledPieces none pieces text)
    (hnext : ∀ next ∈ pieces.head?, next.isLiteral = false) :
    Starts (· ≠ '\x7b') text ∧ literalText none text = ([], text) := by
  cases pieces with
  | nil =>
    obtain rfl : text = [] := h
    exact ⟨by simp [Starts], rfl⟩
  | cons piece pieces =>
    obtain ⟨first, more, hpiece, -, -, rfl⟩ := h
    have hliteral := hnext piece rfl
    cases piece with
    | binding content =>
      obtain ⟨before, middle, after, -, -, -, rfl⟩ := hpiece
      exact ⟨starts_cons.mpr (by decide), rfl⟩
    | leaf leaf =>
      cases leaf with
      | text raw => cases hliteral
      | _ => exact hpiece.elim
    | _ => exact hpiece.elim

theorem piece_parses (piece : Tree) (h : piece.SpelledPiece none text) (hfits : piece.Fits)
    (hdepth : piece.nesting 1 ≤ depth)
    (hrest : piece.isLiteral = true → Starts (· ≠ '\x7b') rest ∧ literalText none rest = ([], rest)) :
    text ≠ [] ∧
      Parses (orElse (binding (expression depth)) (rawText none)) (text ++ rest) piece rest := by
  match piece with
  | .binding content =>
    obtain ⟨hnone, hdepth⟩ := Nat.max_le.mp hdepth
    exact braces_parse (refuses_of_depth hnone)
      (fun _ hmiddle => tree_inside content hmiddle hfits hdepth) h rest
  | .leaf (.text raw) =>
    obtain ⟨rfl, hne, hmark, hraw⟩ := h
    obtain ⟨hstarts, hend⟩ := hrest rfl
    have hreads := rawText_parses (expression depth) hne hmark hraw hstarts hend
    rw [String.ofList_toList] at hreads
    exact ⟨hne, hreads⟩
  | .leaf .null | .leaf (.truth _) | .leaf (.number _) | .leaf (.dimension _ _) | .leaf (.name _)
  | .text _ | .group _ | .array _ | .map _ | .field _ _ | .index _ _ | .call _ _ | .sign _ _
  | .binary _ _ _ | .choice _ _ _ => exact h.elim

/-- **A template is read back from its spellings**, if the expressions in it are not nested more
deeply than the rule allows. -/
theorem template_parses (h : Tree.IsTemplate pieces text) (hdepth : Tree.nestingAll 1 pieces ≤ depth) :
    Parses (segments (expression depth) none) text pieces [] := by
  have hend : Declines (orElse (binding (expression depth)) (rawText none)) [] :=
    .both (.bind (.scan rfl)) (.bind (.scan rfl))
  refine Repeats.collect ?_ hend
  obtain ⟨hspelled, hfits⟩ := h
  induction pieces generalizing text with
  | nil =>
    obtain rfl : text = [] := hspelled
    exact .nil []
  | cons piece pieces ih =>
    obtain ⟨first, more, hpiece, hmore, hapart, rfl⟩ := hspelled
    obtain ⟨hfirst, hothers⟩ := Nat.max_le.mp hdepth
    obtain ⟨hne, hreads⟩ := piece_parses piece hpiece hfits.1 hfirst
      fun hliteral => pieces_start hmore (hapart hliteral)
    refine .cons hreads ?_ (ih hothers hmore hfits.2)
    have hlength := List.length_pos_iff.mpr hne
    rw [List.length_append]
    omega

/-- A text is a spelling of at most one template. -/
theorem template_unique {others : List Tree} (h : Tree.IsTemplate pieces text)
    (h' : Tree.IsTemplate others text) : pieces = others := by
  obtain ⟨depth, hdepth, hdepth'⟩ :
      ∃ depth, Tree.nestingAll 1 pieces ≤ depth ∧ Tree.nestingAll 1 others ≤ depth :=
    ⟨_, Nat.le_max_left .., Nat.le_max_right ..⟩
  have hreads : _ = _ := template_parses h hdepth
  have hreads' : _ = _ := template_parses h' hdepth'
  rw [hreads] at hreads'
  cases hreads'
  rfl

end TreeGrammar

end LiveTemplate
