import LiveTemplate.Proofs.Syntax.Levels
/-!
# Spellings are read back

A tree that fits is read back from each of its spellings, construct by construct.  The rules for
inner expressions are used one level of nesting further down, so a spelling is read if its
expressions are not nested more deeply than the rule allows.  Where the grammar tries whether there
is an expression, and there is none, it has to be allowed one all the same; this is why an empty
list, an empty list of arguments and an empty binding count here as if they held one.
-/

set_option autoImplicit false

namespace LiveTemplate.TreeGrammar

open Text (isBlank skipBlank)
open Grammar
open Grammar.Rule

variable {inner : Rule Tree} {tree content container : Tree} {op : Operator} {c d quote : Char}
variable {text rest before after first second letters digits : List Char}

/-! ## Single tokens -/

theorem nameStart_no_number (h : isNameStart c = true) : isDecimalDigit c = false ∧ c ≠ '.' := by
  refine ⟨?_, ne_of_class h (by decide)⟩
  -- letters and the underscore come after the digits
  have hafter : '9' < c := by
    simp only [isNameStart, Bool.or_eq_true, Bool.and_eq_true, decide_eq_true_eq, beq_iff_eq] at h
    obtain (⟨hlow, -⟩ | ⟨hlow, -⟩) | rfl := h
    · exact Nat.lt_of_lt_of_le (by decide : '9' < 'a') hlow
    · exact Nat.lt_of_lt_of_le (by decide : '9' < 'A') hlow
    · decide
  have hc : ¬c ≤ '9' := Nat.not_le.mpr hafter
  simp [isDecimalDigit, hc]

theorem dimension_declines (h : NumberEnds text) : Declines dimension text := .bind (.numeral h)

theorem accessible_declines
    (h : Starts (fun c => isNameStart c = false ∧ c ∉ ['(', '@', '[', '\x7b']) text) :
    Declines (accessible inner) text := by
  have hmark : ∀ d ∈ ['(', '@', '[', '\x7b'], Declines (char d) text := by
    intro d hd
    refine .char (h.mono fun c hc => ?_)
    rintro rfl
    exact hc.2 hd
  have hname : Declines name text := .bind (.scan (identifier_none (h.mono fun c hc => hc.1)))
  refine .both (.bind (hmark '(' (by decide))) (.both (.bind (hmark '@' (by decide))) ?_)
  exact .both hname (.both (.bind (hmark '[' (by decide))) (.bind (hmark '\x7b' (by decide))))

theorem keyword_factored {leaf : Leaf} (hbare : Bare text)
    (h : ∀ rest, keyword? (text ++ rest) = some (leaf, rest)) : Factored inner text (.leaf leaf) := by
  refine ⟨hbare, fun rest hrest => Parses.orElse ?_⟩
  exact (Parses.scan (h rest)).bind ((Parses.scan (wordEnd_spelled hrest.word)).bind (.pure _ _))

theorem unary_none (h : c ∉ ['+', '-', '!']) : unaryOperator? [c] = none := by
  simp only [List.mem_cons, List.not_mem_nil, or_false, not_or] at h
  obtain ⟨hplus, hminus, hnot⟩ := h
  simp [unaryOperator?, hplus, hminus, hnot]

/-- What starts a number starts nothing else. -/
theorem number_start (h : isDecimalDigit c = true ∨ c = '.') :
    isNameStart c = false ∧ c ∉ ['(', '@', '[', '\x7b'] ∧ isOpening c = true ∧
      c ∉ ['+', '-', '!'] := by
  obtain hdigit | rfl := h
  · have hmark : ∀ d, isDecimalDigit d = false → c ≠ d := fun d => ne_of_class hdigit
    refine ⟨?_, ?_, ?_, ?_⟩
    · refine Bool.eq_false_iff.mpr fun hname => ?_
      rw [(nameStart_no_number hname).1] at hdigit
      cases hdigit
    · simp [hmark '(' (by decide), hmark '@' (by decide), hmark '[' (by decide),
        hmark '\x7b' (by decide)]
    · simp [isOpening, isNameChar, hdigit]
    · simp [hmark '+' (by decide), hmark '-' (by decide), hmark '!' (by decide)]
  · decide

theorem number_starts (h : IsNumeral digits) (rest : List Char) :
    Bare (digits ++ rest) ∧ Starts (isNameStart · = false) (digits ++ rest) ∧
    Starts (fun c => isNameStart c = false ∧ c ∉ ['(', '@', '[', '\x7b']) (digits ++ rest) := by
  obtain ⟨c, more, rfl, hc⟩ := h.starts
  obtain ⟨hname, hbracket, hopening, hsign⟩ := number_start hc
  exact ⟨⟨c, more ++ rest, rfl, hopening, unary_none hsign⟩, starts_cons.mpr hname,
    starts_cons.mpr ⟨hname, hbracket⟩⟩

theorem dimension_factored {unit : LengthUnit} (h : IsNumeral digits)
    (hletters : unit.letters? = some letters) :
    Factored inner (digits ++ letters) (.leaf (.dimension digits unit)) := by
  obtain ⟨hbare, -⟩ := number_starts h letters
  refine ⟨hbare, fun rest hrest => ?_⟩
  obtain ⟨-, hname, -⟩ := number_starts h (letters ++ rest)
  rw [List.append_assoc]
  refine (word_declines hname).orElse (Parses.orElse ?_)
  refine (Parses.numeral h (unit_starts hletters rest)).bind ?_
  refine (Parses.scan (unit_spelled hletters rest)).bind ?_
  exact (Parses.scan (wordEnd_spelled hrest.word)).bind (.pure _ _)

theorem number_factored (h : IsNumeral digits) :
    Factored inner digits (.leaf (.number digits)) := by
  obtain ⟨hbare, -⟩ := number_starts h []
  rw [List.append_nil] at hbare
  refine ⟨hbare, fun rest hrest => ?_⟩
  obtain ⟨-, hname, haccessible⟩ := number_starts h rest
  have hnumeral := Parses.numeral h hrest.numberEnds
  -- the digits are read as those of a dimension first, but then there is no unit
  have hdimension : Declines dimension (digits ++ rest) :=
    .afterwards hnumeral (.bind (.scan (unit_none hrest.word)))
  refine (word_declines hname).orElse (hdimension.orElse ?_)
  exact Declines.orElse (.bind (accessible_declines haccessible))
    (Parses.orElse (hnumeral.bind (.pure _ _)))

theorem name_accessed {symbol : String} (h : IsIdentifier symbol.toList)
    (hreserved : symbol.toList ∉ reserved) : Accessed inner symbol.toList (.leaf (.name symbol)) := by
  have hsymbol : symbol = String.ofList symbol.toList := by simp
  generalize symbol.toList = letters at *
  subst hsymbol
  obtain ⟨c, more, rfl, hc⟩ : ∃ c more, letters = c :: more ∧ isNameStart c = true := by
    cases letters with
    | nil => exact h.elim
    | cons c more => exact ⟨c, more, rfl, h.1⟩
  have hmark : ∀ d, isNameStart d = false → c ≠ d := fun d => ne_of_class hc
  have hopening : isOpening c = true := by simp [isOpening, isNameChar, hc]
  refine .start ⟨c, more, rfl, hopening, unary_none ?_⟩ fun rest hrest => ?_
  · simp [hmark '+' (by decide), hmark '-' (by decide), hmark '!' (by decide)]
  · refine ⟨word_declines_name h hreserved hrest,
      dimension_declines (starts_cons.mpr (nameStart_no_number hc)), ?_⟩
    refine Declines.orElse (.bind (.char (starts_cons.mpr (hmark '(' (by decide))))) ?_
    refine Declines.orElse (.bind (.char (starts_cons.mpr (hmark '@' (by decide))))) ?_
    refine Parses.orElse ((Parses.scan (identifier_spelled h hrest)).bind ?_)
    simp only [List.contains_eq_mem, hreserved, decide_false]
    exact .pure _ _

theorem bracket_declines (hc : c ∈ ['(', '@', '[', '\x7b', '\x27', '\x22']) (rest : List Char) :
    Declines word (c :: rest) ∧ Declines dimension (c :: rest) := by
  refine ⟨word_declines (starts_cons.mpr ?_), dimension_declines (starts_cons.mpr ?_)⟩
  · exact of_mem_list hc (by decide)
  · exact of_mem_list hc (by decide)

theorem bracket_bare (hc : c ∈ ['(', '@', '[', '\x7b', '\x27', '\x22']) (rest : List Char) :
    Bare (c :: rest) := by
  have hopening : isOpening c = true := by
    exact of_mem_list hc (by decide)
  refine ⟨c, rest, rfl, hopening, unary_none ?_⟩
  exact of_mem_list hc (by decide)

/-- A bracket or an at sign starts something accessible, if anything. -/
theorem bracket_accessed (hc : c ∈ ['(', '@', '[', '\x7b', '\x27', '\x22'])
    (h : ∀ rest, WordEnds rest → Parses (accessible inner) (c :: (text ++ rest)) tree rest) :
    Accessed inner (c :: text) tree := by
  refine .start (bracket_bare hc text) fun rest hrest => ?_
  obtain ⟨hword, hdimension⟩ := bracket_declines hc (text ++ rest)
  exact ⟨hword, hdimension, h rest hrest⟩

theorem resource_accessed {symbol : String} (h : IsIdentifier letters)
    (hsymbol : symbol.toList = '@' :: letters) :
    Accessed inner symbol.toList (.leaf (.name symbol)) := by
  obtain rfl : symbol = String.ofList ('@' :: letters) := by rw [← hsymbol, String.ofList_toList]
  rw [hsymbol]
  refine bracket_accessed (by decide) fun rest hrest => ?_
  refine Declines.orElse (.bind (.char (starts_cons.mpr (by decide)))) (Parses.orElse ?_)
  exact (Parses.char '@' _).bind ((Parses.scan (identifier_spelled h hrest)).bind (.pure _ _))

/-- Single tokens are read back. -/
theorem leaf_form {leaf : Leaf} (h : leaf.Spelled text) :
    Form inner (Tree.leaf leaf).level text (.leaf leaf) := by
  cases leaf with
  | null =>
    obtain rfl : text = _ := h
    exact keyword_factored ⟨_, _, rfl, by decide, rfl⟩ fun rest => by simp [keyword?, literal?]
  | truth value =>
    cases value with
    | true =>
      obtain rfl : text = _ := h
      exact keyword_factored ⟨_, _, rfl, by decide, rfl⟩ fun rest => by simp [keyword?, literal?]
    | false =>
      obtain rfl : text = _ := h
      exact keyword_factored ⟨_, _, rfl, by decide, rfl⟩ fun rest => by simp [keyword?, literal?]
  | text value => exact h.elim
  | number digits =>
    obtain ⟨hdigits, rfl⟩ := h
    exact number_factored hdigits
  | dimension digits unit =>
    obtain ⟨hdigits, letters, hletters, rfl⟩ := h
    exact dimension_factored hdigits hletters
  | name symbol =>
    obtain ⟨rfl, ⟨hletters, hreserved⟩ | ⟨letters, hletters, hsymbol⟩⟩ := h
    · exact name_accessed hletters hreserved
    · exact resource_accessed hletters hsymbol

/-! ## Where there is no expression -/

theorem chain_declines {operand : Rule Tree} (h : Declines operand text)
    (operator? : List Char → Option (Operator × List Char)) (missing : Mistake) :
    Declines (chain operand operator? missing) text := .bind h

theorem leftChain_declines {operand : Rule Tree} (h : Declines operand text)
    (operator? : List Char → Option (Operator × List Char)) (missing : Mistake) :
    Declines (leftChain operand operator? missing) text := .bind (chain_declines h ..)

theorem anyQuoted_declines (hc : c ∈ closers) (rest : List Char) :
    Declines (anyQuoted inner) (c :: rest) := by
  refine .both (.bind (.char (starts_cons.mpr ?_))) (.bind (.char (starts_cons.mpr ?_)))
  · exact of_mem_list hc (by decide)
  · exact of_mem_list hc (by decide)

theorem factor_declines (hc : c ∈ closers) (rest : List Char) :
    Declines (factor inner) (c :: rest) := by
  have hclass : isNameStart c = false ∧ (isDecimalDigit c = false ∧ c ≠ '.') ∧
      c ∉ ['(', '@', '[', '\x7b'] := of_mem_list hc (by decide)
  obtain ⟨hname, hnumber, hbracket⟩ := hclass
  refine .both (word_declines (starts_cons.mpr hname)) ?_
  refine .both (dimension_declines (starts_cons.mpr hnumber)) ?_
  refine .both (.bind (accessible_declines (starts_cons.mpr ⟨hname, hbracket⟩))) ?_
  exact .both (.bind (.numeral (starts_cons.mpr hnumber))) (anyQuoted_declines hc rest)

theorem choice_declines (hc : c ∈ closers) (rest : List Char) :
    Declines (choice inner) (c :: rest) := by
  have hsigns : Grammar.signs (c :: rest) = ([], c :: rest) := by
    have hsign : unaryOperator? [c] = none := by
      refine unary_none ?_
      exact of_mem_list hc (by decide)
    simp [Grammar.signs, hsign]
  have hunary : Declines (unary inner) (c :: rest) :=
    .afterwards (.scan (congrArg some hsigns)) (factor_declines hc rest)
  have hsum := leftChain_declines (leftChain_declines hunary termOperator? .operandAfterTerm)
    sumOperator? .operandAfterSum
  have hequality := leftChain_declines (leftChain_declines hsum comparisonOperator?
    .operandAfterComparison) equalityOperator? .operandAfterEquality
  have hdisjunction := leftChain_declines (leftChain_declines hequality andOperator? .operandAfterAnd)
    orOperator? .operandAfterOr
  exact .bind (.bind (chain_declines hdisjunction coalesceOperator? .operandAfterCoalesce))

/-- The rule for an inner expression finds none before a bracket that closes. -/
def Refuses (inner : Rule Tree) : Prop := ∀ c ∈ closers, ∀ rest, Declines inner (c :: rest)

theorem refuses_of_depth {depth : Nat} (h : 1 ≤ depth) : Refuses (expression depth) := by
  match depth with
  | 0 => omega
  | depth + 1 => exact fun _ hc rest => choice_declines hc rest

/-! ## Brackets -/

variable {middle : List Char} {texts : List (List Char)} {items : List Tree}
variable {entries : List (Tree × Tree)}

theorem group_accessed (h : Inside inner middle content) (hbefore : IsBlanks before)
    (hafter : IsBlanks after) :
    Accessed inner ('(' :: (before ++ (middle ++ (after ++ [')'])))) (.group content) := by
  refine bracket_accessed (by decide) fun rest _ => Parses.orElse ?_
  simp only [List.append_assoc, List.cons_append, List.nil_append]
  obtain ⟨hopen, hcontent, hclose⟩ := h.padded hbefore hafter (d := ')') (by decide) rest
  exact parses_enclosed hopen (hcontent.must _) hclose

/-- Nothing else starts like an array or a map. -/
theorem accessible_list (hc : c ∈ ['[', '\x7b'])
    (h : Parses (orElse (array inner) (map inner)) (c :: text) tree rest) :
    Parses (accessible inner) (c :: text) tree rest := by
  have hclass : c ≠ '(' ∧ c ≠ '@' ∧ isNameStart c = false := of_mem_list hc (by decide)
  obtain ⟨hgroup, hresource, hname⟩ := hclass
  refine Declines.orElse (.bind (.char (starts_cons.mpr hgroup))) ?_
  refine Declines.orElse (.bind (.char (starts_cons.mpr hresource))) ?_
  exact Declines.orElse (.bind (.scan (identifier_none (starts_cons.mpr hname)))) h

theorem array_accessed (hinner : Refuses inner) (h : List.Forall₂ (Inside inner) texts items)
    (hmiddle : Separated texts middle) (hbefore : IsBlanks before) (hafter : IsBlanks after) :
    Accessed inner ('[' :: (before ++ (middle ++ (after ++ [']'])))) (.array items) := by
  refine bracket_accessed (by decide) fun rest _ => accessible_list (by decide) (Parses.orElse ?_)
  simp only [List.append_assoc, List.cons_append, List.nil_append]
  obtain ⟨start, stop, hopen, hitems, hclose⟩ := listed_padded .array h hmiddle hbefore
    hafter (d := ']') (by decide) (by decide) (hinner ']' (by decide) rest)
  exact parses_enclosed hopen hitems hclose

theorem map_accessed (h : List.Forall₂ (Inside (mapEntry inner)) texts entries)
    (hmiddle : Separated texts middle) (hbefore : IsBlanks before) (hafter : IsBlanks after) :
    Accessed inner ('\x7b' :: (before ++ (middle ++ (after ++ ['\x7d'])))) (.map entries) := by
  refine bracket_accessed (by decide) fun rest _ => accessible_list (by decide) ?_
  refine Declines.orElse (.bind (.char (starts_cons.mpr (by decide)))) ?_
  simp only [List.append_assoc, List.cons_append, List.nil_append]
  obtain ⟨start, stop, hopen, hentries, hclose⟩ := listed_padded .mapKey h hmiddle
    hbefore hafter (d := '\x7d') (by decide) (by decide) (.bind (anyQuoted_declines (by decide) rest))
  exact parses_enclosed hopen hentries hclose

/-- A key, a colon and a value. -/
theorem entry_inside {key value : Tree}
    (hkey : ∀ rest, Parses (anyQuoted inner) (first ++ rest) key rest) (hopens : Opens first)
    (hvalue : Inside inner second value) (hbefore : IsBlanks before) (hafter : IsBlanks after) :
    Inside (mapEntry inner) (first ++ (before ++ ([':'] ++ (after ++ second)))) (key, value) := by
  refine ⟨hopens.append _, fun rest hrest => ?_⟩
  simp only [List.append_assoc, List.cons_append, List.nil_append]
  refine (hkey _).bind ?_
  refine (Parses.blanks hbefore (starts_cons.mpr (by decide))).bind ?_
  refine ((Parses.char ':' _).must _).bind ?_
  refine (Parses.blanks hafter (starts_opening hvalue.opens rest)).bind ?_
  exact ((hvalue.reads rest hrest).must _).bind (.pure _ _)

/-! ## Accesses -/

variable {gap : List Char}

/-- An access in brackets. -/
theorem Accessed.bracket (h : Accessed inner text tree) (last : Access) (hgap : IsBlanks gap)
    (hc : c = '[' ∨ c = '(')
    (hlast : ∀ rest,
      Parses (orElse (indexAccess inner) (call inner)) (c :: (middle ++ rest)) last rest) :
    Accessed inner (text ++ (gap ++ c :: middle)) (last.of tree) := by
  have hclass : isNameChar c = false ∧ isBlank c = false ∧ c ≠ '.' := by
    obtain rfl | rfl := hc <;> decide
  have hlength : 0 < (gap ++ c :: middle).length := by
    rw [List.length_append, List.length_cons]
    omega
  refine h.append last (fun rest => ?_) hlength fun rest _ => ?_
  · rw [List.append_assoc]
    exact wordEnds_blanks hgap (starts_cons.mpr hclass.1)
  · rw [List.append_assoc]
    refine (Parses.blanks hgap (starts_cons.mpr hclass.2.1)).bind ?_
    exact Declines.orElse (.bind (.char (starts_cons.mpr hclass.2.2))) (hlast rest)

theorem index_accessed {key : Tree} (h : Accessed inner text container) (hgap : IsBlanks gap)
    (hkey : Inside inner middle key) (hbefore : IsBlanks before) (hafter : IsBlanks after) :
    Accessed inner (text ++ (gap ++ '[' :: (before ++ (middle ++ (after ++ [']'])))))
      (.index container key) := by
  refine h.bracket (.index key) hgap (.inl rfl) fun rest => Parses.orElse ?_
  simp only [List.append_assoc, List.cons_append, List.nil_append]
  obtain ⟨hopen, hcontent, hclose⟩ := hkey.padded hbefore hafter (d := ']') (by decide) rest
  exact parses_enclosed hopen (hcontent.must _) hclose

theorem call_accessed (hinner : Refuses inner) (hcallee : Accessed inner text container)
    (hgap : IsBlanks gap) (h : List.Forall₂ (Inside inner) texts items)
    (hmiddle : Separated texts middle) (hbefore : IsBlanks before) (hafter : IsBlanks after) :
    Accessed inner (text ++ (gap ++ '(' :: (before ++ (middle ++ (after ++ [')'])))))
      (.call container items) := by
  refine hcallee.bracket (.call items) hgap (.inr rfl) fun rest => ?_
  refine Declines.orElse (.bind (.char (starts_cons.mpr (by decide)))) ?_
  simp only [List.append_assoc, List.cons_append, List.nil_append]
  obtain ⟨start, stop, hopen, hitems, hclose⟩ := listed_padded .expression h hmiddle
    hbefore hafter (d := ')') (by decide) (by decide) (hinner ')' (by decide) rest)
  exact parses_enclosed hopen hitems hclose

theorem identifier_opens (h : IsIdentifier text) : Opens text := by
  cases text with
  | nil => exact h.elim
  | cons c rest =>
    have hname : isNameStart c = true := h.1
    exact ⟨c, rest, rfl, by simp [isOpening, isNameChar, hname]⟩

theorem field_accessed {field : String} (h : Accessed inner text container)
    (hbefore : IsBlanks before)
    (hafter : IsBlanks after) (hfield : IsIdentifier field.toList) :
    Accessed inner (text ++ (before ++ (['.'] ++ (after ++ field.toList))))
      (.field container field) := by
  have hlength : 0 < (before ++ (['.'] ++ (after ++ field.toList))).length := by
    rw [List.length_append, List.length_append, List.length_singleton]
    omega
  refine h.append (.field field) (fun rest => ?_) hlength fun rest hrest => ?_
  · simp only [List.append_assoc, List.cons_append, List.nil_append]
    exact wordEnds_blanks hbefore (starts_cons.mpr (by decide))
  · simp only [List.append_assoc, List.cons_append, List.nil_append]
    refine (Parses.blanks hbefore (starts_cons.mpr (by decide))).bind (Parses.orElse ?_)
    refine (Parses.char '.' _).bind ?_
    refine (Parses.blanks hafter (starts_opening (identifier_opens hfield) rest)).bind ?_
    refine (Parses.scan (identifier_spelled hfield hrest)).bind ?_
    rw [String.ofList_toList]
    exact .pure _ _

/-! ## Texts -/

/-- Literal text ends here: with the quotation mark, or where an expression starts. -/
def RawEnds (quote : Char) (rest : List Char) : Prop :=
  ∃ more, rest = quote :: more ∨ rest = '$' :: '\x7b' :: more

/-- Literal text does not start an expression, not even together with what follows it. -/
theorem raw_no_binding {raw : List Char} (hraw : ¬['$', '\x7b'] <:+: c :: raw)
    (hrest : Starts (· ≠ '\x7b') rest) (more : List Char) :
    c :: (raw ++ rest) ≠ '$' :: '\x7b' :: more := by
  intro heq
  obtain ⟨rfl, hmore⟩ := List.cons.inj heq
  -- the brace would be in the literal text, or the first character after it
  cases raw with
  | nil =>
    obtain rfl : rest = '\x7b' :: more := hmore
    exact starts_cons.mp hrest rfl
  | cons d raw =>
    obtain ⟨rfl, -⟩ := List.cons.inj hmore
    exact hraw ⟨[], raw, rfl⟩

theorem literalText_quote (quote : Char) (rest : List Char) :
    literalText (some quote) (quote :: rest) = ([], quote :: rest) := by
  unfold literalText
  split
  · next heq => rw [heq]
  · next heq =>
    obtain ⟨rfl, rfl⟩ := List.cons.inj heq
    simp
  · next heq => cases heq

/-- Literal text is taken up to where it ends. -/
theorem literalText_run {quote : Option Char} {raw : List Char} (hmark : ∀ q ∈ quote, q ∉ raw)
    (hraw : ¬['$', '\x7b'] <:+: raw) (hstarts : Starts (· ≠ '\x7b') rest)
    (hrest : literalText quote rest = ([], rest)) :
    literalText quote (raw ++ rest) = (raw, rest) := by
  induction raw with
  | nil => exact hrest
  | cons c raw ih =>
    have hmore : ¬['$', '\x7b'] <:+: raw := fun h => hraw (h.trans (List.suffix_cons c raw).isInfix)
    have hne : some c ≠ quote := fun h => hmark c h.symm List.mem_cons_self
    rw [List.cons_append]
    unfold literalText
    split
    · next heq => exact absurd heq (raw_no_binding hraw hstarts _)
    · next heq =>
      obtain ⟨rfl, rfl⟩ := List.cons.inj heq
      have ih := ih (fun q hq h => hmark q hq (List.mem_cons_of_mem _ h)) hmore
      simp [hne, ih]
    · next heq => cases heq

/-- Literal text is a segment by itself. -/
theorem rawText_parses (inner : Rule Tree) {quote : Option Char} {raw : List Char} (hne : raw ≠ [])
    (hmark : ∀ q ∈ quote, q ∉ raw) (hraw : ¬['$', '\x7b'] <:+: raw)
    (hstarts : Starts (· ≠ '\x7b') rest) (hrest : literalText quote rest = ([], rest)) :
    Parses (orElse (binding inner) (rawText quote)) (raw ++ rest)
      (.leaf (.text (String.ofList raw))) rest := by
  have htext := literalText_run hmark hraw hstarts hrest
  cases raw with
  | nil => exact absurd rfl hne
  | cons c raw =>
    have hopen : literal? ['$', '\x7b'] (c :: raw ++ rest) = none := by
      cases hliteral : literal? ['$', '\x7b'] (c :: raw ++ rest) with
      | none => rfl
      | some found => exact absurd (literal_some hliteral) (raw_no_binding hraw hstarts _)
    refine Declines.orElse (.bind (.scan hopen)) ?_
    have hscan : literalText? quote (c :: raw ++ rest) = some (c :: raw, rest) := by
      unfold literalText?
      rw [htext]
    exact (Parses.scan hscan).bind (.pure _ _)

/-- The rule for a segment of a quoted text. -/
def segment (inner : Rule Tree) (quote : Char) : Rule Tree :=
  orElse (binding inner) (rawText (some quote))

theorem raw_parses (inner : Rule Tree) {raw : List Char} (h : IsRaw quote raw) (hquote : quote ≠ '\x7b')
    (hrest : RawEnds quote rest) :
    Parses (segment inner quote) (raw ++ rest) (.leaf (.text (String.ofList raw))) rest := by
  obtain ⟨hne, hmark, hraw⟩ := h
  refine rawText_parses inner hne (by simpa using hmark) hraw ?_ ?_
  · obtain ⟨more, rfl | rfl⟩ := hrest
    · exact starts_cons.mpr hquote
    · exact starts_cons.mpr (by decide)
  · obtain ⟨more, rfl | rfl⟩ := hrest
    · exact literalText_quote quote more
    · rfl

theorem binding_parses (h : Inside inner middle content) (hbefore : IsBlanks before)
    (hafter : IsBlanks after) (rest : List Char) :
    Parses (binding inner) ('$' :: '\x7b' :: (before ++ (middle ++ (after ++ '\x7d' :: rest))))
      (.binding content) rest := by
  obtain ⟨hopen, hcontent, hclose⟩ := h.padded hbefore hafter (d := '\x7d') (by decide) rest
  refine (Parses.scan rfl).bind (hopen.bind (hcontent.optional.bind (hclose.bind ?_)))
  exact ((Parses.char '\x7d' rest).must _).bind (.pure _ _)

/-- No expression. -/
theorem binding_parses_none (hinner : Refuses inner) (hbefore : IsBlanks before)
    (hafter : IsBlanks after) (rest : List Char) :
    Parses (binding inner) ('$' :: '\x7b' :: (before ++ (after ++ '\x7d' :: rest)))
      (.binding (.leaf (.text ""))) rest := by
  have hend : Starts (isBlank · = false) ('\x7d' :: rest) := starts_cons.mpr (by decide)
  rw [← List.append_assoc]
  refine (Parses.scan rfl).bind ((Parses.blanks (fun c hc => ?_) hend).bind ?_)
  · exact (List.mem_append.mp hc).elim (hbefore c) (hafter c)
  · refine (hinner '\x7d' (by decide) rest).optional.bind ((Parses.noBlanks hend).bind ?_)
    exact ((Parses.char '\x7d' rest).must _).bind (.pure _ _)

/-- Braces around an expression or around nothing. -/
theorem braces_parse {other : Rule Tree} (hnone : Refuses inner)
    (hcontent : ∀ middle, content.Spelled middle → Inside inner middle content)
    (h : Enclosed ['$', '\x7b'] ['\x7d']
      (fun middle => content.Spelled middle ∨ content = .leaf (.text "") ∧ middle = []) text)
    (rest : List Char) :
    text ≠ [] ∧ Parses (orElse (binding inner) other) (text ++ rest) (.binding content) rest := by
  obtain ⟨before, middle, after, hbefore, hmiddle, hafter, rfl⟩ := h
  refine ⟨List.cons_ne_nil _ _, Parses.orElse ?_⟩
  simp only [List.append_assoc, List.cons_append, List.nil_append]
  obtain hmiddle | ⟨rfl, rfl⟩ := hmiddle
  · exact binding_parses (hcontent _ hmiddle) hbefore hafter rest
  · exact binding_parses_none hnone hbefore hafter rest

/-- Literal text does not go on where no literal text follows it. -/
theorem segments_end {segments : List Tree} (h : Tree.SpelledSegments quote segments text)
    (hnext : ∀ next ∈ segments.head?, next.isLiteral = false) (rest : List Char) :
    RawEnds quote (text ++ quote :: rest) := by
  cases segments with
  | nil =>
    obtain rfl : text = [] := h
    exact ⟨rest, .inl rfl⟩
  | cons segment segments =>
    obtain ⟨first, more, hsegment, -, -, rfl⟩ := h
    have hliteral := hnext segment rfl
    cases segment with
    | binding content =>
      obtain ⟨before, middle, after, -, -, -, rfl⟩ := hsegment
      exact ⟨_, .inr rfl⟩
    | leaf leaf =>
      cases leaf with
      | text raw => cases hliteral
      | _ => exact hsegment.elim
    | _ => exact hsegment.elim

theorem segment_declines (hquote : quote ≠ '$') (rest : List Char) :
    Declines (segment inner quote) (quote :: rest) := by
  refine .both (.bind (.scan ?_)) (.bind (.scan ?_))
  · simp [literal?, Ne.symm hquote]
  · unfold literalText?
    rw [literalText_quote]

/-- A quoted text is read by its segments. -/
theorem anyQuoted_parses {segments : List Tree} (hquote : quote = '\x27' ∨ quote = '\x22')
    (h : Repeats (segment inner quote) (text ++ quote :: rest) segments (quote :: rest)) :
    Parses (anyQuoted inner) (quote :: (text ++ quote :: rest)) (.text segments) rest := by
  have hquoted (unterminated : Mistake) :
      Parses (quoted inner quote unterminated) (quote :: (text ++ quote :: rest)) (.text segments)
        rest := by
    have hne : quote ≠ '$' := by
      obtain rfl | rfl := hquote <;> decide
    refine (Parses.char quote _).bind ((h.collect (segment_declines hne rest)).bind ?_)
    exact ((Parses.char quote rest).must _).bind (.pure _ _)
  obtain rfl | rfl := hquote
  · exact Parses.orElse (hquoted _)
  · exact Declines.orElse (.bind (.char (starts_cons.mpr (by decide)))) (hquoted _)

theorem text_factored {segments : List Tree} (hquote : quote = '\x27' ∨ quote = '\x22')
    (h : ∀ rest, Repeats (segment inner quote) (text ++ quote :: rest) segments (quote :: rest)) :
    Factored inner (quote :: (text ++ [quote])) (.text segments) := by
  have hbracket : quote ∈ ['(', '@', '[', '\x7b', '\x27', '\x22'] := by
    obtain rfl | rfl := hquote <;> decide
  have hclass : isNameStart quote = false ∧ quote ∉ ['(', '@', '[', '\x7b'] ∧
      isDecimalDigit quote = false ∧ quote ≠ '.' := by
    obtain rfl | rfl := hquote <;> decide
  obtain ⟨hname, hopen, hnumber⟩ := hclass
  refine ⟨bracket_bare hbracket _, fun rest _ => ?_⟩
  simp only [List.append_assoc, List.cons_append, List.nil_append]
  obtain ⟨hword, hdimension⟩ := bracket_declines hbracket (text ++ quote :: rest)
  -- quoted texts are tried last
  refine hword.orElse (hdimension.orElse ?_)
  refine Declines.orElse (.bind (accessible_declines (starts_cons.mpr ⟨hname, hopen⟩))) ?_
  exact Declines.orElse (.bind (.numeral (starts_cons.mpr hnumber))) (anyQuoted_parses hquote (h rest))

/-! ## Operators -/

variable {left right condition whenTrue whenFalse : Tree}

/-- The operators of every level but one are put together from the left. -/
theorem binary_level (hop : op.isBinary = true) :
    op = .coalesce ∨ ∃ lower, op.rank.level = lower + 1 ∧ 2 ≤ lower ∧ lower ≤ 7 ∧
      op.leftLimit = lower + 1 ∧ op.rightLimit = lower := by
  cases op
  case coalesce => exact .inl rfl
  all_goals first
    | exact .inr ⟨_, rfl, by decide, by decide, rfl, rfl⟩
    | cases hop

theorem binary_form (hop : op.isBinary = true) (hleft : Form inner left.level first left)
    (hright : Form inner right.level second right) (hleftLimit : left.level ≤ op.leftLimit)
    (hrightLimit : right.level ≤ op.rightLimit) (hbefore : IsBlanks before) (hafter : IsBlanks after) :
    Form inner op.rank.level (first ++ (before ++ (op.symbol ++ (after ++ second))))
      (.binary op left right) := by
  have hop' : op.isInfix = true := by simp [Operator.isInfix, hop]
  obtain rfl | ⟨lower, hlevel, hlow, hhigh, hleftEq, hrightEq⟩ := binary_level hop
  · -- from the right: the right operand is a chain already
    have hfirst := (hleft.raise hleftLimit (by decide)).readsTo (by decide) (by decide)
    exact Chained.prepended (hleft.opens (Nat.le_trans hleftLimit (by decide))) hfirst
      (hright.raise hrightLimit (by decide)) hop' rfl hbefore hafter
  · -- from the left: the left operand is one
    rw [hleftEq] at hleftLimit
    rw [hrightEq] at hrightLimit
    have hchain := (Form.iff_chained hlow hhigh).mp (hleft.raise hleftLimit (by omega))
    have hsecond := (hright.raise hrightLimit (by omega)).readsTo hlow (by omega)
    rw [hlevel, Form.iff_chained hlow hhigh]
    exact hchain.appended (hright.opens (by omega)) hsecond hop' hlevel hbefore hafter

theorem branches_parses (htrue : Inside inner first whenTrue)
    (hfalse : Inside inner second whenFalse) (hgap : IsBlanks gap) (hbefore : IsBlanks before)
    (hafter : IsBlanks after) (hrest : Stops Rank.choice.level rest) :
    Parses (branches inner) (gap ++ (first ++ (before ++ ':' :: (after ++ (second ++ rest)))))
      (whenTrue, whenFalse) rest := by
  have hcolon : Stops Rank.choice.level (before ++ ':' :: (after ++ (second ++ rest))) :=
    stops_closer _ hbefore (by decide)
  refine (Parses.blanks hgap (starts_opening htrue.opens _)).bind ?_
  refine (htrue.reads _ hcolon).bind ?_
  refine (Parses.blanks hbefore (starts_cons.mpr (by decide))).bind ?_
  refine (Parses.char ':' _).bind ?_
  refine (Parses.blanks hafter (starts_opening hfalse.opens _)).bind ?_
  exact (hfalse.reads rest hrest).bind (.pure _ _)

theorem questionMark_parses (hbefore : IsBlanks before) (rest : List Char) :
    Parses questionMark (before ++ (Operator.choose.symbol ++ rest)) () rest :=
  (Parses.blanks hbefore (symbol_not_blank rfl rest)).bind (.char '?' rest)

theorem choice_inside {third between : List Char}
    (hcondition : Form inner 9 first condition) (htrue : Inside inner second whenTrue)
    (hfalse : Inside inner third whenFalse) (hbefore : IsBlanks before) (hgap : IsBlanks gap)
    (hbetween : IsBlanks between) (hafter : IsBlanks after) :
    Inside (choice inner) (first ++ (before ++ (Operator.choose.symbol ++ (gap ++
      (second ++ (between ++ ([':'] ++ (after ++ third))))))))
      (.choice condition whenTrue whenFalse) := by
  have hopens : Opens first := Chained.opens hcondition
  refine ⟨hopens.append _, fun rest hrest => ?_⟩
  simp only [List.append_assoc, List.cons_append, List.nil_append]
  have hbranches := branches_parses htrue hfalse hgap hbetween hafter hrest
  -- the question mark stops the condition
  have hends := symbolEnds_blanks hgap
    (htrue.opens.append (between ++ ':' :: (after ++ (third ++ rest))))
  have hlevel : 9 < Operator.choose.rank.level := by decide
  have hstops := stops_operator rfl hlevel hbefore hends
  refine Parses.bind (Chained.readsTo hcondition _ hstops) ?_
  exact (questionMark_parses hbefore _).optional.bind ((hbranches.must _).bind (.pure _ _))

/-! ## Trees -/

theorem level_le (tree : Tree) : tree.level ≤ 10 := by
  cases tree with
  | leaf leaf => cases leaf <;> exact Nat.le_of_ble_eq_true rfl
  | binary op _ _ => cases op <;> exact Nat.le_of_ble_eq_true rfl
  | _ => exact Nat.le_of_ble_eq_true rfl

theorem Form.inside {level depth : Nat} (h : Form (expression depth) level text tree)
    (hlevel : level ≤ 10) : Inside (expression (depth + 1)) text tree :=
  h.raise hlevel (Nat.le_refl _)

mutual
/-- **A tree that fits is read back from its spellings**, with no more expressions inside one another
than the rule allows. -/
theorem tree_form (tree : Tree) {depth : Nat} {text : List Char} (h : tree.Spelled text)
    (hfits : tree.Fits) (hdepth : tree.nesting 1 ≤ depth + 1) :
    Form (expression depth) tree.level text tree := by
  -- by cases on the construct: what is inside of brackets has one expression less to use, the
  -- operands of operators have as many
  match tree with
  | .leaf leaf => exact leaf_form h
  | .binding _ => exact h.elim
  | .text segments =>
    obtain ⟨quote, inside, hquote, hinside, rfl⟩ := h
    exact text_factored hquote
      (segments_repeat segments hquote hinside hfits (Nat.le_of_succ_le_succ hdepth))
  | .group content =>
    obtain ⟨before, middle, after, hbefore, hmiddle, hafter, rfl⟩ := h
    exact group_accessed (tree_inside content hmiddle hfits (Nat.le_of_succ_le_succ hdepth)) hbefore
      hafter
  | .array items =>
    obtain ⟨before, middle, after, hbefore, ⟨texts, htexts, hmiddle⟩, hafter, rfl⟩ := h
    obtain ⟨hempty, hitems⟩ := Nat.max_le.mp (Nat.le_of_succ_le_succ hdepth)
    exact array_accessed (refuses_of_depth hempty) (trees_inside items htexts hfits hitems) hmiddle
      hbefore hafter
  | .map entries =>
    obtain ⟨before, middle, after, hbefore, ⟨texts, htexts, hmiddle⟩, hafter, rfl⟩ := h
    have hentries := entries_inside entries htexts hfits (Nat.le_trans (Nat.le_max_right ..) hdepth)
    exact map_accessed hentries hmiddle hbefore hafter
  | .field container name =>
    obtain ⟨first, before, after, second, hfirst, hbefore, hafter, ⟨rfl, hname⟩, rfl⟩ := h
    obtain ⟨hlevel, hcontainer⟩ := hfits
    have hform := tree_form container hfirst hcontainer hdepth
    rw [hlevel] at hform
    exact field_accessed hform hbefore hafter hname
  | .index container key =>
    obtain ⟨first, gap, _, hfirst, hgap, ⟨before, middle, after, hbefore, hkey, hafter, rfl⟩, rfl⟩ := h
    obtain ⟨hlevel, hcontainer, hkeyFits⟩ := hfits
    obtain ⟨hdepth, hkeyDepth⟩ := Nat.max_le.mp hdepth
    have hform := tree_form container hfirst hcontainer hdepth
    rw [hlevel] at hform
    exact index_accessed hform hgap (tree_inside key hkey hkeyFits (Nat.le_of_succ_le_succ hkeyDepth))
      hbefore hafter
  | .call callee arguments =>
    obtain ⟨first, gap, _, hfirst, hgap,
      ⟨before, middle, after, hbefore, ⟨texts, htexts, hmiddle⟩, hafter, rfl⟩, rfl⟩ := h
    obtain ⟨hlevel, hcallee, harguments⟩ := hfits
    obtain ⟨hdepth, hargumentsDepth⟩ := Nat.max_le.mp hdepth
    obtain ⟨hempty, hargumentsDepth⟩ := Nat.max_le.mp (Nat.le_of_succ_le_succ hargumentsDepth)
    have hform := tree_form callee hfirst hcallee hdepth
    rw [hlevel] at hform
    exact call_accessed (refuses_of_depth hempty) hform hgap
      (trees_inside arguments htexts harguments hargumentsDepth) hmiddle hbefore hafter
  | .sign op operand =>
    obtain ⟨hop, rest, hrest, rfl⟩ := h
    obtain ⟨hlevel, hoperand⟩ := hfits
    have hform := tree_form operand hrest hoperand hdepth
    exact Signed.cons (hform.raise hlevel (by decide)) hop
  | .binary op left right =>
    obtain ⟨hop, first, before, after, second, hfirst, hbefore, hafter, hsecond, rfl⟩ := h
    obtain ⟨hleftLimit, hrightLimit, hleft, hright⟩ := hfits
    obtain ⟨hleftDepth, hrightDepth⟩ := Nat.max_le.mp hdepth
    exact binary_form hop (tree_form left hfirst hleft hleftDepth)
      (tree_form right hsecond hright hrightDepth) hleftLimit hrightLimit hbefore hafter
  | .choice condition whenTrue whenFalse =>
    obtain ⟨first, before, gap, _, hfirst, hbefore, hgap,
      ⟨second, between, after, third, hsecond, hbetween, hafter, hthird, rfl⟩, rfl⟩ := h
    obtain ⟨hlevel, hcondition, htrue, hfalse⟩ := hfits
    obtain ⟨hdepth, hbranches⟩ := Nat.max_le.mp hdepth
    have hform := (tree_form condition hfirst hcondition hdepth).raise hlevel (by decide)
    exact choice_inside hform (tree_inside whenTrue hsecond htrue (by omega))
      (tree_inside whenFalse hthird hfalse (by omega)) hbefore hgap hbetween hafter

theorem tree_inside (tree : Tree) {depth : Nat} {text : List Char} (h : tree.Spelled text)
    (hfits : tree.Fits) (hdepth : tree.nesting 1 ≤ depth) : Inside (expression depth) text tree := by
  match depth with
  | 0 => exact absurd hdepth (Nat.not_le.mpr (tree.nesting_pos h))
  | depth + 1 => exact (tree_form tree h hfits hdepth).inside (level_le tree)

theorem trees_inside (trees : List Tree) {depth : Nat} {texts : List (List Char)}
    (h : Tree.SpelledAll trees texts) (hfits : Tree.FitsAll trees)
    (hdepth : Tree.nestingAll 1 trees ≤ depth) :
    List.Forall₂ (Inside (expression depth)) texts trees := by
  match trees with
  | [] =>
    obtain rfl : texts = [] := h
    exact .nil
  | tree :: rest =>
    obtain ⟨first, more, hfirst, hmore, rfl⟩ := h
    obtain ⟨htree, hrest⟩ := Nat.max_le.mp hdepth
    exact .cons (tree_inside tree hfirst hfits.1 htree) (trees_inside rest hmore hfits.2 hrest)

theorem entries_inside (entries : List (Tree × Tree)) {depth : Nat} {texts : List (List Char)}
    (h : Tree.SpelledEntries entries texts) (hfits : Tree.FitsEntries entries)
    (hdepth : Tree.nestingEntries 1 entries ≤ depth + 1) :
    List.Forall₂ (Inside (mapEntry (expression depth))) texts entries := by
  match entries with
  | [] =>
    obtain rfl : texts = [] := h
    exact .nil
  | (key, value) :: rest =>
    obtain ⟨first, more, hquoted, hentry, hmore, rfl⟩ := h
    obtain ⟨keyText, before, after, valueText, hkey, hbefore, hafter, hvalue, rfl⟩ := hentry
    obtain ⟨hkeyFits, hvalueFits, hrest⟩ := hfits
    obtain ⟨hentryDepth, hdepth⟩ := Nat.max_le.mp hdepth
    obtain ⟨hkeyDepth, hvalueDepth⟩ := Nat.max_le.mp hentryDepth
    obtain ⟨hopens, hreads⟩ := key_parses key hquoted hkey hkeyFits hkeyDepth
    have hvalue := tree_inside value hvalue hvalueFits (Nat.le_of_succ_le_succ hvalueDepth)
    exact .cons (entry_inside hreads hopens hvalue hbefore hafter)
      (entries_inside rest hmore hrest hdepth)

theorem key_parses (key : Tree) {depth : Nat} {text : List Char} (hquoted : key.isQuoted = true)
    (h : key.Spelled text) (hfits : key.Fits) (hdepth : key.nesting 1 ≤ depth + 1) :
    Opens text ∧ ∀ rest, Parses (anyQuoted (expression depth)) (text ++ rest) key rest := by
  match key with
  | .text segments =>
    obtain ⟨quote, inside, hquote, hinside, rfl⟩ := h
    have hrepeat := segments_repeat segments hquote hinside hfits (Nat.le_of_succ_le_succ hdepth)
    refine ⟨(text_factored hquote hrepeat).bare.opens, fun rest => ?_⟩
    simp only [List.append_assoc, List.cons_append, List.nil_append]
    exact anyQuoted_parses hquote (hrepeat rest)
  | .leaf _ | .binding _ | .group _ | .array _ | .map _ | .field _ _ | .index _ _ | .call _ _
  | .sign _ _ | .binary _ _ _ | .choice _ _ _ => cases hquoted

theorem segment_parses (tree : Tree) {depth : Nat} {quote : Char} {text rest : List Char}
    (hquote : quote = '\x27' ∨ quote = '\x22') (h : tree.SpelledSegment quote text)
    (hfits : tree.Fits) (hdepth : tree.nesting 1 ≤ depth)
    (hends : tree.isLiteral = true → RawEnds quote rest) :
    text ≠ [] ∧ Parses (segment (expression depth) quote) (text ++ rest) tree rest := by
  match tree with
  | .binding content =>
    obtain ⟨hnone, hdepth⟩ := Nat.max_le.mp hdepth
    exact braces_parse (refuses_of_depth hnone)
      (fun _ hmiddle => tree_inside content hmiddle hfits hdepth) h rest
  | .leaf (.text raw) =>
    obtain ⟨rfl, hraw⟩ := h
    have hbrace : quote ≠ '\x7b' := by
      obtain rfl | rfl := hquote <;> decide
    have hreads := raw_parses (expression depth) hraw hbrace (hends rfl)
    rw [String.ofList_toList] at hreads
    exact ⟨hraw.1, hreads⟩
  | .leaf .null | .leaf (.truth _) | .leaf (.number _) | .leaf (.dimension _ _) | .leaf (.name _)
  | .text _ | .group _ | .array _ | .map _ | .field _ _ | .index _ _ | .call _ _ | .sign _ _
  | .binary _ _ _ | .choice _ _ _ => exact h.elim

theorem segments_repeat (segments : List Tree) {depth : Nat} {quote : Char} {text : List Char}
    (hquote : quote = '\x27' ∨ quote = '\x22') (h : Tree.SpelledSegments quote segments text)
    (hfits : Tree.FitsAll segments) (hdepth : Tree.nestingAll 1 segments ≤ depth) (rest : List Char) :
    Repeats (segment (expression depth) quote) (text ++ quote :: rest) segments (quote :: rest) := by
  match segments with
  | [] =>
    obtain rfl : text = [] := h
    exact .nil _
  | segment :: segments =>
    obtain ⟨first, more, hsegment, hmore, hapart, rfl⟩ := h
    obtain ⟨hfirst, hothers⟩ := Nat.max_le.mp hdepth
    obtain ⟨hne, hreads⟩ := segment_parses segment hquote hsegment hfits.1 hfirst
      fun hliteral => segments_end hmore (hapart hliteral) rest
    rw [List.append_assoc]
    refine .cons hreads ?_ (segments_repeat segments hquote hmore hfits.2 hothers rest)
    have hlength := List.length_pos_iff.mpr hne
    simp only [List.length_append]
    omega
end

/-- **The spelling says which tree was meant**: a text spells at most one tree that fits. -/
theorem spelled_unique {tree tree' : Tree} {text : List Char} (h : tree.Spelled text)
    (h' : tree'.Spelled text) (hfits : tree.Fits) (hfits' : tree'.Fits) : tree = tree' := by
  -- there is a limit that is enough for both trees
  obtain ⟨depth, hdepth, hdepth'⟩ : ∃ depth, tree.nesting 1 ≤ depth ∧ tree'.nesting 1 ≤ depth :=
    ⟨_, Nat.le_max_left .., Nat.le_max_right ..⟩
  have hinside := tree_inside tree h hfits hdepth
  have hinside' := tree_inside tree' h' hfits' hdepth'
  have hstops : Stops Rank.choice.level ([] ++ [')']) :=
    stops_closer _ (by simp [IsBlanks]) (by decide)
  have hreads : _ = _ := hinside.reads _ hstops
  have hreads' : _ = _ := hinside'.reads _ hstops
  rw [hreads] at hreads'
  cases hreads'
  rfl

end LiveTemplate.TreeGrammar
