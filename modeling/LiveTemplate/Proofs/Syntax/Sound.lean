import LiveTemplate.Proofs.Syntax.Pieces
import LiveTemplate.Proofs.Syntax.Taken
/-!
# What is read is spelled

The converse of reading back.  If a text is read as a tree, then what was taken of the text is a
spelling of the tree, the tree fits, and its expressions are not nested more deeply than the rule
allows.  So the grammar of spellings and the reader of trees accept the same texts, and a template
is read within a limit exactly if its nesting keeps to it.

The rules are gone through one by one.  `Faithful rule spell good` says of a rule that whatever it
reads is good and is spelled by what it takes; the rules are then put together as they are written.
-/

set_option autoImplicit false

namespace LiveTemplate

/-- The tree may stand in a place of a level, where expressions may be nested so deeply. -/
structure Tree.Admitted (level depth : Nat) (tree : Tree) : Prop where
  fits : tree.Fits
  level_le : tree.level ≤ level
  nesting_le : tree.nesting 1 ≤ depth

theorem Tree.Admitted.raise {level level' depth : Nat} {tree : Tree} (h : tree.Admitted level depth)
    (hle : level ≤ level') : tree.Admitted level' depth :=
  ⟨h.fits, Nat.le_trans h.level_le hle, h.nesting_le⟩

namespace Grammar

open Rule

variable {α β : Type} {rule first second : Rule α} {text rest : List Char}

/-- What the rule reads is good, and is spelled by what the rule takes. -/
def Faithful (rule : Rule α) (spell : α → List Char → Prop) (good : α → Prop) : Prop :=
  ∀ ⦃text value rest⦄, Completes rule text value rest → Begins (spell value) text rest ∧ good value

variable {spell : α → List Char → Prop} {good : α → Prop}

namespace Faithful

theorem mono {spell' : α → List Char → Prop} {good' : α → Prop} (h : Faithful rule spell good)
    (hspell : ∀ value text, good value → spell value text → spell' value text)
    (hgood : ∀ value, good value → good' value) : Faithful rule spell' good' := by
  intro text value rest hdone
  obtain ⟨hbegins, hvalue⟩ := h hdone
  exact ⟨hbegins.mono fun used hused => hspell value used hvalue hused, hgood value hvalue⟩

theorem must (h : Faithful rule spell good) (mistake : Mistake) :
    Faithful (Rule.must mistake rule) spell good :=
  fun _ _ _ hdone => h (completes_must.mp hdone)

theorem orElse (h : Faithful first spell good) (k : Faithful second spell good) :
    Faithful (Rule.orElse first second) spell good := by
  intro text value rest hdone
  obtain hdone | ⟨-, hdone⟩ := completes_orElse.mp hdone
  · exact h hdone
  · exact k hdone

/-- Something between two marks, with blanks around it. -/
theorem enclosed {result : α → β} {spell' : β → List Char → Prop} {good' : β → Prop} {c d : Char}
    {mistake : Mistake} (h : Faithful rule spell good)
    (hspell : ∀ value text, Enclosed [c] [d] (spell value) text → spell' (result value) text)
    (hgood : ∀ value, good value → good' (result value)) :
    Faithful (do
      char c
      blanks
      let value ← rule
      blanks
      Rule.must mistake (char d)
      return result value) spell' good' := by
  intro text value rest hdone
  simp only [completes_bind, completes_char, completes_blanks, completes_must, completes_pure] at hdone
  obtain ⟨_, _, rfl, _, _, ⟨⟨before, hbefore, rfl⟩, -⟩, content, stop, hrule, _, _,
    ⟨⟨after, hafter, rfl⟩, -⟩, _, _, rfl, rfl, rfl⟩ := hdone
  obtain ⟨⟨middle, hmiddle, rfl⟩, hcontent⟩ := h hrule
  refine ⟨⟨_, hspell content _ ⟨before, middle, after, hbefore, hmiddle, hafter, rfl⟩, ?_⟩,
    hgood content hcontent⟩
  simp

end Faithful

/-- The texts spell the values, one by one, and stand with commas between them. -/
def CommaList (spell : α → List Char → Prop) (values : List α) (text : List Char) : Prop :=
  ∃ texts, List.Forall₂ spell values texts ∧ Separated texts text

/-- A list is a list of what is read, and where it is empty it has been tried in vain to read
something. -/
theorem Faithful.listed (h : Faithful rule spell good) (missing : Mistake) :
    Faithful (TreeGrammar.listed rule missing) (CommaList spell) fun values =>
      (∀ value ∈ values, good value) ∧ (values = [] → ∃ text, Passes rule text) := by
  intro text values rest hdone
  obtain ⟨_, middle, htried, hafter⟩ := completes_bind.mp hdone
  obtain ⟨value, rfl, hfirst⟩ | ⟨rfl, rfl, hpasses⟩ := completes_optional.mp htried
  · obtain ⟨more, last, hmore, hlast⟩ := completes_bind.mp hafter
    obtain ⟨rfl, rfl⟩ := completes_pure.mp hlast
    obtain ⟨⟨used, hused, rfl⟩, hgood⟩ := h hfirst
    -- the further elements, each after a comma
    have hfurther : ∃ texts, List.Forall₂ spell more texts ∧ Begins (Continued texts) middle rest ∧
        ∀ value ∈ more, good value := by
      refine Completes.collect
        (motive := fun text values rest => ∃ texts, List.Forall₂ spell values texts ∧
          Begins (Continued texts) text rest ∧ ∀ value ∈ values, good value) ?_ ?_ hmore
      · exact fun text => ⟨[], .nil, ⟨[], rfl, rfl⟩, fun _ hmem => nomatch hmem⟩
      · rintro _ value _ values rest hnext ⟨texts, htexts, ⟨tail, htail, rfl⟩, hvalues⟩
        simp only [completes_bind, completes_char, completes_blanks, completes_must] at hnext
        obtain ⟨_, _, ⟨⟨before, hbefore, rfl⟩, -⟩, _, _, rfl, _, _, ⟨⟨after, hafter, rfl⟩, -⟩, hnext⟩ :=
          hnext
        obtain ⟨⟨next, hspelled, rfl⟩, hvalue⟩ := h hnext
        refine ⟨next :: texts, .cons hspelled htexts,
          ⟨_, ⟨before, after, tail, hbefore, hafter, htail, rfl⟩, by simp⟩, ?_⟩
        simpa using ⟨hvalue, hvalues⟩
    obtain ⟨texts, htexts, ⟨tail, htail, rfl⟩, hvalues⟩ := hfurther
    refine ⟨⟨used ++ tail, ⟨used :: texts, .cons hused htexts, tail, htail, rfl⟩, by simp⟩, ?_, ?_⟩
    · simpa using ⟨hgood, hvalues⟩
    · exact fun hnil => nomatch hnil
  · obtain ⟨rfl, rfl⟩ := completes_pure.mp hafter
    refine ⟨⟨[], ⟨[], .nil, rfl⟩, rfl⟩, ?_, fun _ => ⟨_, hpasses⟩⟩
    exact fun _ hmem => nomatch hmem

variable {P : β → List Char → Prop}

/-- The text goes on with something that makes another value of one that has been read before. -/
def GoesOn (P : β → List Char → Prop) (extend : β → β) (text rest : List Char) : Prop :=
  ∃ used, text = used ++ rest ∧ ∀ {value first}, P value first → P (extend value) (first ++ used)

/-- What is repeated extends what has been read before it again and again. -/
theorem GoesOn.collect {step : β → α → β}
    (h : ∀ {text a rest}, Completes rule text a rest → GoesOn P (step · a) text rest)
    {values : List α} (hdone : Completes (Rule.collect rule) text values rest) :
    GoesOn P (values.foldl step ·) text rest := by
  refine Completes.collect (motive := fun text values rest => GoesOn P (values.foldl step ·) text rest)
    ?_ ?_ hdone
  · exact fun text => ⟨[], rfl, fun hvalue => by rwa [List.append_nil]⟩
  · rintro text a middle values rest hfirst ⟨more, rfl, hmore⟩
    obtain ⟨used, rfl, hused⟩ := h hfirst
    refine ⟨used ++ more, by simp, fun hvalue => ?_⟩
    rw [← List.append_assoc]
    exact hmore (hused hvalue)

end Grammar

namespace Tree

/-! ## Lists of trees -/

theorem spelledAll_of_forall {trees : List Tree} {texts : List (List Char)}
    (h : List.Forall₂ Tree.Spelled trees texts) : SpelledAll trees texts := by
  induction h with
  | nil => rfl
  | cons hfirst _ ih => exact ⟨_, _, hfirst, ih, rfl⟩

/-- The text spells an entry of a map. -/
def SpelledEntry (entry : Tree × Tree) (text : List Char) : Prop :=
  entry.1.isQuoted = true ∧ Parted [':'] entry.1.Spelled entry.2.Spelled text

theorem spelledEntries_of_forall {entries : List (Tree × Tree)} {texts : List (List Char)}
    (h : List.Forall₂ SpelledEntry entries texts) : SpelledEntries entries texts := by
  induction h with
  | nil => rfl
  | cons hfirst _ ih => exact ⟨_, _, hfirst.1, hfirst.2, ih, rfl⟩

theorem admitted_all {level depth : Nat} {trees : List Tree}
    (h : ∀ tree ∈ trees, tree.Admitted level depth) :
    FitsAll trees ∧ nestingAll 1 trees ≤ depth := by
  induction trees with
  | nil => exact ⟨trivial, Nat.zero_le _⟩
  | cons tree rest ih =>
    have htree := h tree List.mem_cons_self
    obtain ⟨hfits, hnesting⟩ := ih fun t ht => h t (List.mem_cons_of_mem _ ht)
    exact ⟨⟨htree.fits, hfits⟩, Nat.max_le.mpr ⟨htree.nesting_le, hnesting⟩⟩

/-- The key and the value of an entry have their places. -/
def AdmittedEntry (depth : Nat) (entry : Tree × Tree) : Prop :=
  entry.1.Admitted 1 (depth + 1) ∧ entry.2.Admitted Rank.choice.level depth

theorem admitted_entries {depth : Nat} {entries : List (Tree × Tree)}
    (h : ∀ entry ∈ entries, AdmittedEntry depth entry) :
    FitsEntries entries ∧ nestingEntries 1 entries ≤ depth + 1 := by
  induction entries with
  | nil => exact ⟨trivial, Nat.zero_le _⟩
  | cons entry rest ih =>
    obtain ⟨hkey, hvalue⟩ := h entry List.mem_cons_self
    obtain ⟨hfits, hnesting⟩ := ih fun t ht => h t (List.mem_cons_of_mem _ ht)
    refine ⟨⟨hkey.fits, hvalue.fits, hfits⟩, Nat.max_le.mpr ⟨Nat.max_le.mpr ⟨hkey.nesting_le, ?_⟩, hnesting⟩⟩
    exact Nat.succ_le_succ hvalue.nesting_le

end Tree

namespace Access

/-- The text spells the access, from its mark on. -/
def Spelled : Access → List Char → Prop
  | field name => fun text => ∃ after letters, IsBlanks after ∧ letters = name.toList ∧
    IsIdentifier letters ∧ text = '.' :: (after ++ letters)
  | index key => Enclosed ['['] [']'] key.Spelled
  | call arguments => Enclosed ['('] [')'] fun text =>
    ∃ texts, Tree.SpelledAll arguments texts ∧ Separated texts text

/-- What is in the access fits, and is not nested too deeply. -/
def Admitted (depth : Nat) : Access → Prop
  | field _ => True
  | index key => key.Admitted Rank.choice.level depth
  | call arguments => Tree.FitsAll arguments ∧ max 1 (Tree.nestingAll 1 arguments) ≤ depth

variable {access : Access} {container : Tree} {first gap text : List Char} {depth : Nat}

theorem spelled_of (hcontainer : container.Spelled first) (hgap : IsBlanks gap)
    (h : access.Spelled text) : (access.of container).Spelled (first ++ (gap ++ text)) := by
  cases access with
  | field name =>
    obtain ⟨after, letters, hafter, hname, hletters, rfl⟩ := h
    exact ⟨first, gap, after, letters, hcontainer, hgap, hafter, ⟨hname, hletters⟩, rfl⟩
  | index key => exact ⟨first, gap, text, hcontainer, hgap, h, rfl⟩
  | call arguments => exact ⟨first, gap, text, hcontainer, hgap, h, rfl⟩

theorem admitted_of (hcontainer : container.Admitted 0 (depth + 1)) (h : access.Admitted depth) :
    (access.of container).Admitted 0 (depth + 1) := by
  have hlevel := Nat.le_zero.mp hcontainer.level_le
  cases access with
  | field name => exact ⟨⟨hlevel, hcontainer.fits⟩, Nat.le_refl 0, hcontainer.nesting_le⟩
  | index key =>
    exact ⟨⟨hlevel, hcontainer.fits, h.fits⟩, Nat.le_refl 0,
      Nat.max_le.mpr ⟨hcontainer.nesting_le, Nat.succ_le_succ h.nesting_le⟩⟩
  | call arguments =>
    exact ⟨⟨hlevel, hcontainer.fits, h.1⟩, Nat.le_refl 0,
      Nat.max_le.mpr ⟨hcontainer.nesting_le, Nat.succ_le_succ h.2⟩⟩

end Access

namespace TreeGrammar

open Grammar
open Grammar.Rule

/-- The rule reads trees for a place of a level. -/
abbrev FaithfulAt (rule : Rule Tree) (level depth : Nat) : Prop :=
  Faithful rule Tree.Spelled (Tree.Admitted level depth)

/-- The rule reads expressions that are nested no more deeply than this; and to try it in vain, one
expression has to be allowed. -/
structure Bounded (inner : Rule Tree) (depth : Nat) : Prop where
  faithful : FaithfulAt inner Rank.choice.level depth
  tried : ∀ ⦃text⦄, Passes inner text → 1 ≤ depth

variable {inner : Rule Tree} {depth : Nat}

/-- What is read is an expression. -/
theorem FaithfulAt.positive {rule : Rule Tree} {level : Nat} (h : FaithfulAt rule level depth) :
    Faithful rule Tree.Spelled fun tree => tree.Admitted level depth ∧ 0 < tree.nesting 1 := by
  intro text tree rest hdone
  obtain ⟨hbegins, htree⟩ := h hdone
  obtain ⟨used, hused, -⟩ := id hbegins
  exact ⟨hbegins, htree, tree.nesting_pos hused⟩

/-! ## Single tokens -/

theorem leaf_admitted (leaf : Leaf) : (Tree.leaf leaf).Admitted 1 (depth + 1) := by
  refine ⟨trivial, ?_, ?_⟩
  · cases leaf <;> simp [Tree.level]
  · cases leaf <;> simp [Tree.nesting]

theorem word_faithful : FaithfulAt word 1 (depth + 1) := by
  intro text tree rest hdone
  simp only [word, completes_bind, completes_scan, completes_pure] at hdone
  obtain ⟨leaf, _, hkeyword, _, _, hend, rfl, rfl⟩ := hdone
  obtain rfl := wordEnd_some hend
  exact ⟨keyword_some hkeyword, leaf_admitted leaf⟩

theorem dimension_faithful : FaithfulAt dimension 1 (depth + 1) := by
  intro text tree rest hdone
  simp only [dimension, completes_bind, completes_scan, completes_pure] at hdone
  obtain ⟨digits, _, hnumeral, unit, _, hunit, _, _, hend, rfl, rfl⟩ := hdone
  obtain rfl := wordEnd_some hend
  obtain ⟨letters, hletters, rfl⟩ := unit_some hunit
  obtain ⟨hdigits, rfl⟩ := completes_numeral hnumeral
  exact ⟨⟨_, ⟨hdigits, letters, hletters, rfl⟩, by simp⟩, leaf_admitted _⟩

theorem number_faithful : FaithfulAt number 1 (depth + 1) := by
  intro text tree rest hdone
  simp only [number, completes_bind, completes_pure] at hdone
  obtain ⟨digits, _, hnumeral, rfl, rfl⟩ := hdone
  obtain ⟨hdigits, rfl⟩ := completes_numeral hnumeral
  exact ⟨⟨_, ⟨hdigits, rfl⟩, rfl⟩, leaf_admitted _⟩

theorem name_faithful : FaithfulAt name 0 (depth + 1) := by
  intro text tree rest hdone
  simp only [name, completes_bind, completes_scan] at hdone
  obtain ⟨letters, middle, hidentifier, hdone⟩ := hdone
  obtain ⟨hletters, rfl⟩ := identifier_some hidentifier
  split at hdone
  · obtain ⟨_, _, ⟨_, hdecline⟩, -⟩ := completes_bind.mp hdone
    cases hdecline
  · next hreserved =>
    obtain ⟨rfl, rfl⟩ := completes_pure.mp hdone
    have hmem : letters ∉ reserved := by simpa using hreserved
    refine ⟨⟨letters, ⟨String.toList_ofList.symm, .inl ⟨hletters, hmem⟩⟩, rfl⟩, trivial, Nat.zero_le _, ?_⟩
    exact Nat.succ_le_succ (Nat.zero_le depth)

theorem resource_faithful : FaithfulAt resource 0 (depth + 1) := by
  intro text tree rest hdone
  simp only [resource, completes_bind, completes_char, completes_scan, completes_pure] at hdone
  obtain ⟨_, _, rfl, letters, _, hidentifier, rfl, rfl⟩ := hdone
  obtain ⟨hletters, rfl⟩ := identifier_some hidentifier
  refine ⟨⟨_, ⟨String.toList_ofList.symm, .inr ⟨letters, hletters, rfl⟩⟩, rfl⟩, trivial, Nat.zero_le _, ?_⟩
  exact Nat.succ_le_succ (Nat.zero_le depth)

theorem rawText_faithful (quote : Option Char) {text rest : List Char} {tree : Tree}
    (hdone : Completes (rawText quote) text tree rest) :
    Begins (tree.SpelledPiece quote) text rest ∧ tree.Fits ∧ tree.nesting 1 = 0 ∧
      literalText quote rest = ([], rest) ∧ literalText quote text ≠ ([], text) := by
  simp only [rawText, completes_bind, completes_scan, completes_pure] at hdone
  obtain ⟨raw, _, hscan, rfl, rfl⟩ := hdone
  unfold literalText? at hscan
  split at hscan
  · cases hscan
  · next hne =>
    have hscan := Option.some.inj hscan
    obtain ⟨rfl, hmark, hraw, hend⟩ := literalText_taken hscan
    have hnonempty : raw ≠ [] := by
      rintro rfl
      exact hne _ hscan
    refine ⟨⟨raw, ⟨String.toList_ofList.symm, hnonempty, hmark, hraw⟩, rfl⟩, trivial, rfl, hend, ?_⟩
    rw [hscan]
    exact fun heq => hnonempty (Prod.mk.inj heq).1

/-! ## Brackets -/

section

variable (h : Bounded inner depth)

include h

theorem group_faithful : FaithfulAt (group inner) 0 (depth + 1) :=
  (h.faithful.must .expression).enclosed (fun _ _ htext => htext)
    fun _ hcontent => ⟨hcontent.fits, Nat.zero_le _, Nat.succ_le_succ hcontent.nesting_le⟩

/-- Expressions with commas between them, or none.  To find that there is none, one has to be
allowed. -/
theorem list_faithful (missing : Mistake) : Faithful (listed inner missing)
    (fun trees text => ∃ texts, Tree.SpelledAll trees texts ∧ Separated texts text)
    fun trees => Tree.FitsAll trees ∧ max 1 (Tree.nestingAll 1 trees) ≤ depth := by
  refine (h.faithful.positive.listed missing).mono ?_ ?_
  · rintro trees text - ⟨texts, htexts, htext⟩
    exact ⟨texts, Tree.spelledAll_of_forall htexts, htext⟩
  · rintro trees ⟨hall, hnone⟩
    obtain ⟨hfits, hnesting⟩ := Tree.admitted_all fun tree htree => (hall tree htree).1
    refine ⟨hfits, Nat.max_le.mpr ⟨?_, hnesting⟩⟩
    cases trees with
    | nil =>
      obtain ⟨_, hpasses⟩ := hnone rfl
      exact h.tried hpasses
    | cons tree rest =>
      obtain ⟨htree, hpos⟩ := hall tree List.mem_cons_self
      exact Nat.le_trans hpos htree.nesting_le

theorem array_faithful : FaithfulAt (array inner) 0 (depth + 1) :=
  (list_faithful h .array).enclosed (fun _ _ htext => htext)
    fun _ hitems => ⟨hitems.1, Nat.zero_le _, Nat.succ_le_succ hitems.2⟩

/-! ## Texts -/

theorem binding_faithful (quote : Option Char) : Faithful (binding inner) (Tree.SpelledPiece quote)
    fun tree => tree.Fits ∧ tree.nesting 1 ≤ depth ∧ tree.isLiteral = false := by
  intro text tree rest hdone
  simp only [binding, completes_bind, completes_char, completes_blanks, completes_must,
    completes_pure, completes_scan] at hdone
  obtain ⟨_, _, hopen, _, start, ⟨⟨before, hbefore, rfl⟩, -⟩, found, stop, htried, _, _,
    ⟨⟨after, hafter, rfl⟩, -⟩, _, _, rfl, rfl, rfl⟩ := hdone
  obtain rfl := literal_some hopen
  obtain ⟨content, rfl, hcontent⟩ | ⟨rfl, rfl, hpasses⟩ := completes_optional.mp htried
  · obtain ⟨⟨middle, hmiddle, rfl⟩, hadmitted, hpos⟩ := h.faithful.positive hcontent
    refine ⟨⟨_, ⟨before, middle, after, hbefore, .inl hmiddle, hafter, rfl⟩, by simp⟩, ?_⟩
    exact ⟨hadmitted.fits, Nat.max_le.mpr ⟨Nat.le_trans hpos hadmitted.nesting_le,
      hadmitted.nesting_le⟩, rfl⟩
  · refine ⟨⟨_, ⟨before, [], after, hbefore, .inr ⟨rfl, rfl⟩, hafter, rfl⟩, by simp⟩, ?_⟩
    exact ⟨trivial, Nat.max_le.mpr ⟨h.tried hpasses, Nat.zero_le _⟩, rfl⟩

/-- Pieces are read one after another.  After literal text there is none. -/
theorem segments_faithful (quote : Option Char) : Faithful (segments inner quote)
    (Tree.SpelledPieces quote)
    fun pieces => Tree.FitsAll pieces ∧ Tree.nestingAll 1 pieces ≤ depth := by
  intro text pieces rest hdone
  suffices hpieces : (Begins (Tree.SpelledPieces quote pieces) text rest ∧ Tree.FitsAll pieces ∧
      Tree.nestingAll 1 pieces ≤ depth) ∧ (literalText quote text = ([], text) →
        ∀ next ∈ pieces.head?, next.isLiteral = false) from hpieces.1
  refine Completes.collect (motive := fun text pieces rest =>
    (Begins (Tree.SpelledPieces quote pieces) text rest ∧ Tree.FitsAll pieces ∧
      Tree.nestingAll 1 pieces ≤ depth) ∧ (literalText quote text = ([], text) →
        ∀ next ∈ pieces.head?, next.isLiteral = false)) ?_ ?_ hdone
  · exact fun text => ⟨⟨⟨[], rfl, rfl⟩, trivial, Nat.zero_le _⟩, by simp⟩
  · rintro text piece middle pieces rest hpiece ⟨⟨⟨more, hmore, rfl⟩, hfits, hnesting⟩, hnext⟩
    obtain hbinding | ⟨-, hraw⟩ := completes_orElse.mp hpiece
    · obtain ⟨⟨used, hused, rfl⟩, hpieceFits, hpieceNesting, hliteral⟩ := binding_faithful h quote hbinding
      refine ⟨⟨⟨used ++ more, ⟨used, more, hused, hmore, ?_, rfl⟩, by simp⟩, ⟨hpieceFits, hfits⟩,
        Nat.max_le.mpr ⟨hpieceNesting, hnesting⟩⟩, ?_⟩
      · rw [hliteral]
        exact fun hfalse => nomatch hfalse
      · simpa using fun _ => hliteral
    · obtain ⟨⟨used, hused, rfl⟩, hpieceFits, hpieceNesting, hend, hstart⟩ :=
        rawText_faithful quote hraw
      refine ⟨⟨⟨used ++ more, ⟨used, more, hused, hmore, fun _ => hnext hend, rfl⟩, by simp⟩,
        ⟨hpieceFits, hfits⟩, Nat.max_le.mpr ⟨?_, hnesting⟩⟩, fun hnone => absurd hnone hstart⟩
      exact hpieceNesting ▸ Nat.zero_le depth

theorem quoted_faithful {quote : Char} (hquote : quote = '\x27' ∨ quote = '\x22')
    (unterminated : Mistake) : Faithful (quoted inner quote unterminated) Tree.Spelled
      fun tree => tree.isQuoted = true ∧ tree.Admitted 1 (depth + 1) := by
  intro text tree rest hdone
  simp only [quoted, completes_bind, completes_char, completes_must, completes_pure] at hdone
  obtain ⟨_, _, rfl, pieces, _, hpieces, _, _, rfl, rfl, rfl⟩ := hdone
  obtain ⟨⟨inside, hinside, rfl⟩, hfits, hnesting⟩ := segments_faithful h (some quote) hpieces
  refine ⟨⟨_, ⟨quote, inside, hquote, Tree.spelledPieces_quote.mp hinside, rfl⟩, by simp⟩, rfl, hfits, ?_, ?_⟩
  · exact Nat.le_refl 1
  · exact Nat.succ_le_succ hnesting

theorem anyQuoted_faithful : Faithful (anyQuoted inner) Tree.Spelled
    fun tree => tree.isQuoted = true ∧ tree.Admitted 1 (depth + 1) :=
  .orElse (quoted_faithful h (.inl rfl) _) (quoted_faithful h (.inr rfl) _)

theorem mapEntry_faithful : Faithful (mapEntry inner) Tree.SpelledEntry (Tree.AdmittedEntry depth) := by
  intro text entry rest hdone
  simp only [mapEntry, completes_bind, completes_char, completes_blanks, completes_must,
    completes_pure] at hdone
  obtain ⟨key, _, hkey, _, _, ⟨⟨before, hbefore, rfl⟩, -⟩, _, _, rfl, _, _,
    ⟨⟨after, hafter, rfl⟩, -⟩, value, _, hvalue, rfl, rfl⟩ := hdone
  obtain ⟨⟨first, hfirst, rfl⟩, hquoted, hkeyAdmitted⟩ := anyQuoted_faithful h hkey
  obtain ⟨⟨second, hsecond, rfl⟩, hvalueAdmitted⟩ := h.faithful hvalue
  exact ⟨⟨_, ⟨hquoted, first, before, after, second, hfirst, hbefore, hafter, hsecond, rfl⟩, by simp⟩,
    hkeyAdmitted, hvalueAdmitted⟩

/-- An empty map has no key for which an expression would be tried. -/
theorem map_faithful : FaithfulAt (map inner) 0 (depth + 1) := by
  refine ((mapEntry_faithful h).listed .mapKey).enclosed ?_ ?_
  · rintro entries text ⟨before, middle, after, hbefore, ⟨texts, htexts, hmiddle⟩, hafter, rfl⟩
    exact ⟨before, middle, after, hbefore, ⟨texts, Tree.spelledEntries_of_forall htexts, hmiddle⟩,
      hafter, rfl⟩
  · rintro entries ⟨hall, -⟩
    obtain ⟨hfits, hnesting⟩ := Tree.admitted_entries hall
    exact ⟨hfits, Nat.zero_le _, Nat.max_le.mpr ⟨Nat.succ_le_succ (Nat.zero_le depth), hnesting⟩⟩

/-! ## Accesses -/

omit h in
theorem fieldAccess_faithful : Faithful fieldAccess Access.Spelled (Access.Admitted depth) := by
  intro text access rest hdone
  simp only [fieldAccess, completes_bind, completes_char, completes_blanks, completes_scan,
    completes_pure] at hdone
  obtain ⟨_, _, rfl, _, _, ⟨⟨after, hafter, rfl⟩, -⟩, letters, _, hidentifier, rfl, rfl⟩ := hdone
  obtain ⟨hletters, rfl⟩ := identifier_some hidentifier
  exact ⟨⟨_, ⟨after, letters, hafter, String.toList_ofList.symm, hletters, rfl⟩, by simp⟩, trivial⟩

theorem access_faithful : Faithful (orElse fieldAccess (orElse (indexAccess inner) (call inner)))
    Access.Spelled (Access.Admitted depth) := by
  refine fieldAccess_faithful.orElse (.orElse ?_ ?_)
  · exact (h.faithful.must .expression).enclosed (fun _ _ htext => htext) fun _ hkey => hkey
  · exact (list_faithful h .expression).enclosed (fun _ _ htext => htext) fun _ harguments => harguments

theorem accessible_faithful : FaithfulAt (accessible inner) 0 (depth + 1) :=
  (group_faithful h).orElse <| resource_faithful.orElse <| name_faithful.orElse <|
    (array_faithful h).orElse (map_faithful h)

/-- Accesses are read one after another, each to what has been read before it. -/
theorem accessChain_faithful : FaithfulAt (accessChain inner) 0 (depth + 1) := by
  intro text tree rest hdone
  simp only [accessChain, completes_bind, completes_pure] at hdone
  obtain ⟨start, middle, hstart, accesses, _, haccesses, rfl, rfl⟩ := hdone
  obtain ⟨⟨first, hfirst, rfl⟩, hadmitted⟩ := accessible_faithful h hstart
  have hextends : GoesOn (fun tree first => tree.Spelled first ∧ tree.Admitted 0 (depth + 1))
      (accesses.foldl Access.of ·) middle rest := by
    refine GoesOn.collect (fun haccess => ?_) haccesses
    obtain ⟨_, _, hblanks, hmark⟩ := completes_bind.mp haccess
    obtain ⟨⟨gap, hgap, rfl⟩, -⟩ := completes_blanks.mp hblanks
    obtain ⟨⟨used, hused, rfl⟩, hgood⟩ := access_faithful h hmark
    exact ⟨gap ++ used, by simp, fun ⟨hspelled, htree⟩ =>
      ⟨Access.spelled_of hspelled hgap hused, Access.admitted_of htree hgood⟩⟩
  obtain ⟨used, rfl, hused⟩ := hextends
  obtain ⟨hspelled, htree⟩ := hused ⟨hfirst, hadmitted⟩
  exact ⟨⟨first ++ used, hspelled, by simp⟩, htree⟩

/-! ## Levels -/

theorem factor_faithful : FaithfulAt (factor inner) 1 (depth + 1) := by
  have hchain := (accessChain_faithful h).mono (fun _ _ _ htext => htext)
    fun _ htree => Tree.Admitted.raise htree (Nat.zero_le 1)
  have hquoted := (anyQuoted_faithful h).mono (fun _ _ _ htext => htext) fun _ htree => htree.2
  exact word_faithful.orElse <| dimension_faithful.orElse <| hchain.orElse <| number_faithful.orElse hquoted

omit h in
theorem signed_spelled {ops : List Operator} (hops : ∀ op ∈ ops, op.isSign = true) {operand : Tree}
    {text : List Char} (hspelled : operand.Spelled text) (hadmitted : operand.Admitted 2 (depth + 1)) :
    (Tree.signed ops operand).Spelled (ops.flatMap Operator.symbol ++ text) ∧
      (Tree.signed ops operand).Admitted 2 (depth + 1) := by
  induction ops with
  | nil => exact ⟨hspelled, hadmitted⟩
  | cons op ops ih =>
    obtain ⟨hrest, hsigned⟩ := ih fun op hop => hops op (List.mem_cons_of_mem _ hop)
    rw [List.flatMap_cons, List.append_assoc]
    exact ⟨⟨hops op List.mem_cons_self, _, hrest, rfl⟩, ⟨hsigned.level_le, hsigned.fits⟩, Nat.le_refl 2,
      hsigned.nesting_le⟩

/-- Signs are put on a factor, the nearest first. -/
theorem unary_faithful : FaithfulAt (unary inner) 2 (depth + 1) := by
  intro text tree rest hdone
  obtain ⟨ops, middle, hscan, hafter⟩ := completes_bind.mp hdone
  obtain ⟨hsigns, rfl⟩ := signs_taken (Option.some.inj (completes_scan.mp hscan))
  obtain ⟨operand, rfl, hfactor⟩ :
      ∃ operand, tree = .signed ops operand ∧ Completes (factor inner) middle operand rest := by
    cases ops with
    | nil => exact ⟨tree, rfl, hafter⟩
    | cons op ops =>
      obtain ⟨operand, _, hoperand, hlast⟩ := completes_bind.mp hafter
      obtain ⟨rfl, rfl⟩ := completes_pure.mp hlast
      exact ⟨operand, rfl, completes_must.mp hoperand⟩
  obtain ⟨⟨used, hused, rfl⟩, hadmitted⟩ := factor_faithful h hfactor
  obtain ⟨hspelled, hsigned⟩ := signed_spelled hsigns hused (hadmitted.raise (by decide))
  exact ⟨⟨_, hspelled, by simp⟩, hsigned⟩

end

/-! ## Chains -/

variable {lower : Nat}

/-- A link of a chain: an operator of the level, and an operand of the next tighter one. -/
theorem link_taken (h : FaithfulAt (ranked inner lower) lower depth) {text rest : List Char}
    {op : Operator} {right : Tree} (hdone : Completes (link inner lower) text (op, right) rest) :
    op.isInfix = true ∧ op.rank.level = lower + 1 ∧ right.Admitted lower depth ∧
      ∃ before after second, IsBlanks before ∧ IsBlanks after ∧ right.Spelled second ∧
        text = before ++ (op.symbol ++ (after ++ (second ++ rest))) := by
  simp only [link, completes_bind, completes_blanks, completes_scan, completes_must,
    completes_pure] at hdone
  obtain ⟨_, _, ⟨⟨before, hbefore, rfl⟩, -⟩, op, _, hop, _, _, ⟨⟨after, hafter, rfl⟩, -⟩, right, _, hright,
    heq, rfl⟩ := hdone
  cases heq
  obtain ⟨hmark, hlevel, rfl⟩ := operatorAt_some hop
  obtain ⟨⟨second, hsecond, rfl⟩, hadmitted⟩ := h hright
  exact ⟨hmark, hlevel, hadmitted, before, after, second, hbefore, hafter, hsecond, rfl⟩

theorem fromLeft_eq_foldl (first : Tree) (links : List (Operator × Tree)) :
    Tree.fromLeft first links = links.foldl (fun left link => .binary link.1 left link.2) first := by
  induction links generalizing first with
  | nil => rfl
  | cons link links ih => exact ih _

/-- The operators of the levels of chains stand between two operands. -/
theorem binary_of_level {op : Operator} (hlow : 2 ≤ lower) (hhigh : lower ≤ 8)
    (hlevel : op.rank.level = lower + 1) : op.isBinary = true := by
  have htight : Rank.unary.level < op.rank.level := by
    rw [hlevel]
    exact Nat.lt_succ_of_le hlow
  have hloose : op.rank.level < Rank.choice.level := by
    rw [hlevel]
    exact Nat.lt_of_le_of_lt (Nat.succ_le_succ hhigh) (by decide)
  simp [Operator.isBinary, htight, hloose]

theorem chain_taken {fold : Tree → List (Operator × Tree) → Tree} {text rest : List Char} {tree : Tree}
    (hdone : Completes (linked inner lower fold) text tree rest) :
    ∃ first links middle, tree = fold first links ∧ Completes (ranked inner lower) text first middle ∧
      Completes (collect (link inner lower)) middle links rest := by
  obtain ⟨⟨first, links⟩, last, hchain, hlast⟩ := completes_bind.mp hdone
  obtain ⟨rfl, rfl⟩ := completes_pure.mp hlast
  obtain ⟨start, middle, hfirst, hafter⟩ := completes_bind.mp hchain
  obtain ⟨more, stop, hlinks, hpair⟩ := completes_bind.mp hafter
  obtain ⟨heq, rfl⟩ := completes_pure.mp hpair
  cases heq
  exact ⟨first, links, middle, rfl, hfirst, hlinks⟩

/-- A chain that associates to the left: each link makes a left operand of what is before it. -/
theorem leftChain_faithful (lower : Nat) (h : FaithfulAt (ranked inner lower) lower depth) (hlow : 2 ≤ lower)
    (hhigh : lower ≤ 7) : FaithfulAt (linked inner lower Tree.fromLeft) (lower + 1) depth := by
  intro text tree rest hdone
  obtain ⟨left, links, middle, rfl, hfirst, hlinks⟩ := chain_taken hdone
  obtain ⟨⟨first, hspelled, rfl⟩, hadmitted⟩ := h hfirst
  have hextends : GoesOn
      (fun (tree : Tree) first => tree.Spelled first ∧ tree.Admitted (lower + 1) depth)
      (links.foldl (fun left link => Tree.binary link.1 left link.2) ·) middle rest := by
    refine GoesOn.collect (fun {text link rest} hlink => ?_) hlinks
    obtain ⟨op, right⟩ := link
    obtain ⟨-, hlevel, hright, before, after, second, hbefore, hafter, hsecond, rfl⟩ := link_taken h hlink
    have hop := binary_of_level hlow (Nat.le_succ_of_le hhigh) hlevel
    obtain rfl | ⟨_, hlevel', -, -, hleftLimit, hrightLimit⟩ := binary_level hop
    · exact absurd hlevel (by have : Operator.coalesce.rank.level = 9 := rfl; omega)
    obtain rfl : lower = _ := Nat.succ.inj (hlevel.symm.trans hlevel')
    refine ⟨before ++ (op.symbol ++ (after ++ second)), by simp, ?_⟩
    rintro left first ⟨hleft, hleftAdmitted⟩
    refine ⟨⟨hop, first, before, after, second, hleft, hbefore, hafter, hsecond, rfl⟩, ?_, ?_, ?_⟩
    · exact ⟨hleftLimit ▸ hleftAdmitted.level_le, hrightLimit ▸ hright.level_le, hleftAdmitted.fits,
        hright.fits⟩
    · exact Nat.le_of_eq hlevel
    · exact Nat.max_le.mpr ⟨hleftAdmitted.nesting_le, hright.nesting_le⟩
  obtain ⟨used, rfl, hused⟩ := hextends
  rw [fromLeft_eq_foldl]
  obtain ⟨hall, htree⟩ := hused ⟨hspelled, hadmitted.raise (Nat.le_succ lower)⟩
  exact ⟨⟨first ++ used, hall, by simp⟩, htree⟩

/-- A chain that associates to the right: what follows an operator is the chain of its right
operand. -/
theorem rightChain_faithful (h : FaithfulAt (ranked inner 8) 8 depth) :
    FaithfulAt (linked inner 8 Tree.fromRight) 9 depth := by
  intro text tree rest hdone
  obtain ⟨left, links, middle, rfl, hfirst, hlinks⟩ := chain_taken hdone
  obtain ⟨⟨first, hspelled, rfl⟩, hadmitted⟩ := h hfirst
  suffices hright : ∀ {left : Tree} {first : List Char}, left.Spelled first → left.Admitted 8 depth →
      ∃ used, middle = used ++ rest ∧ (Tree.fromRight left links).Spelled (first ++ used) ∧
        (Tree.fromRight left links).Admitted 9 depth by
    obtain ⟨used, rfl, hall, htree⟩ := hright hspelled hadmitted
    exact ⟨⟨first ++ used, hall, by simp⟩, htree⟩
  refine Completes.collect (motive := fun middle links rest => ∀ {left : Tree} {first : List Char},
    left.Spelled first → left.Admitted 8 depth → ∃ used, middle = used ++ rest ∧
      (Tree.fromRight left links).Spelled (first ++ used) ∧
      (Tree.fromRight left links).Admitted 9 depth) ?_ ?_ hlinks
  · intro text left first hspelled hadmitted
    exact ⟨[], rfl, by rwa [List.append_nil], hadmitted.raise (by decide)⟩
  · rintro text ⟨op, right⟩ middle links rest hlink hmore left first hspelled hadmitted
    obtain ⟨-, hlevel, hright, before, after, second, hbefore, hafter, hsecond, rfl⟩ := link_taken h hlink
    have hop := binary_of_level (by decide) (by decide) hlevel
    obtain rfl | ⟨_, hlevel', -, hhigh, -, -⟩ := binary_level hop
    swap
    · omega
    obtain ⟨more, rfl, hall, htree⟩ := hmore hsecond hright
    refine ⟨before ++ (Operator.coalesce.symbol ++ (after ++ (second ++ more))), by simp, ?_, ?_, ?_, ?_⟩
    · exact ⟨rfl, first, before, after, second ++ more, hspelled, hbefore, hafter, hall, rfl⟩
    · exact ⟨hadmitted.level_le, htree.level_le, hadmitted.fits, htree.fits⟩
    · exact Nat.le_refl 9
    · exact Nat.max_le.mpr ⟨hadmitted.nesting_le, htree.nesting_le⟩

/-! ## Expressions -/

theorem coalescing_faithful (h : Bounded inner depth) : FaithfulAt (coalescing inner) 9 (depth + 1) := by
  have hterm := leftChain_faithful 2 (unary_faithful h) (by decide) (by decide)
  have hsum := leftChain_faithful 3 hterm (by decide) (by decide)
  have hcomparison := leftChain_faithful 4 hsum (by decide) (by decide)
  have hequality := leftChain_faithful 5 hcomparison (by decide) (by decide)
  have hconjunction := leftChain_faithful 6 hequality (by decide) (by decide)
  have hdisjunction := leftChain_faithful 7 hconjunction (by decide) (by decide)
  exact rightChain_faithful hdisjunction

theorem choice_faithful (h : Bounded inner depth) : FaithfulAt (choice inner) 10 (depth + 1) := by
  intro text tree rest hdone
  obtain ⟨condition, middle, hcondition, hchoice⟩ := completes_bind.mp hdone
  obtain ⟨⟨first, hfirst, rfl⟩, hadmitted⟩ := coalescing_faithful h hcondition
  obtain ⟨_, _, htried, hbranches⟩ := completes_bind.mp hchoice
  obtain ⟨_, rfl, hmark⟩ | ⟨rfl, rfl, -⟩ := completes_optional.mp htried
  · simp only [questionMark, branches, completes_bind, completes_char, completes_blanks, completes_must,
      completes_pure] at hmark hbranches
    obtain ⟨_, _, ⟨⟨before, hbefore, rfl⟩, -⟩, rfl⟩ := hmark
    obtain ⟨_, _, ⟨_, _, ⟨⟨gap, hgap, rfl⟩, -⟩, whenTrue, _, htrue, _, _, ⟨⟨between, hbetween, rfl⟩, -⟩,
      _, _, rfl, _, _, ⟨⟨after, hafter, rfl⟩, -⟩, whenFalse, _, hfalse, rfl, rfl⟩, rfl, rfl⟩ := hbranches
    obtain ⟨⟨second, hsecond, rfl⟩, htrueAdmitted⟩ := h.faithful htrue
    obtain ⟨⟨third, hthird, rfl⟩, hfalseAdmitted⟩ := h.faithful hfalse
    refine ⟨⟨_, ⟨first, before, gap, _, hfirst, hbefore, hgap,
      ⟨second, between, after, third, hsecond, hbetween, hafter, hthird, rfl⟩, rfl⟩, ?_⟩, ?_, ?_, ?_⟩
    · simp [Operator.symbol]
    · exact ⟨hadmitted.level_le, hadmitted.fits, htrueAdmitted.fits, hfalseAdmitted.fits⟩
    · exact Nat.le_refl 10
    · exact Nat.max_le.mpr ⟨hadmitted.nesting_le, Nat.succ_le_succ
        (Nat.max_le.mpr ⟨htrueAdmitted.nesting_le, hfalseAdmitted.nesting_le⟩)⟩
  · obtain ⟨rfl, rfl⟩ := completes_pure.mp hbranches
    exact ⟨⟨first, hfirst, rfl⟩, hadmitted.raise (by decide)⟩

/-- **What is read as an expression is one.** -/
theorem expression_bounded (depth : Nat) : Bounded (expression depth) depth := by
  induction depth with
  | zero =>
    -- where no expression is allowed, trying one is a mistake
    refine ⟨fun text tree rest hdone => ?_, fun text hpasses => ?_⟩
    · obtain ⟨_, hfail⟩ := hdone
      cases hfail
    · obtain ⟨_, hfail⟩ := hpasses
      cases hfail
  | succ depth ih => exact ⟨choice_faithful ih, fun _ _ => Nat.succ_le_succ (Nat.zero_le depth)⟩

/-- **What is read as a template is one**, and its expressions are not nested more deeply than the
rule allows. -/
theorem template_taken {text : List Char} {pieces : List Tree}
    (hdone : Completes (segments (expression depth) none) text pieces []) :
    Tree.IsTemplate pieces text ∧ Tree.nestingAll 1 pieces ≤ depth := by
  obtain ⟨⟨used, hused, rfl⟩, hfits, hnesting⟩ := segments_faithful (expression_bounded depth) none hdone
  rw [List.append_nil]
  exact ⟨⟨hused, hfits⟩, hnesting⟩

/-- **The templates that are accepted** are those that are spelled by the grammar and keep to the
limit. -/
theorem read_ok_iff {text : List Char} {tree : Tree} :
    read text = .ok tree ↔ ∃ pieces, tree = .text pieces ∧ Tree.IsTemplate pieces text ∧
      Tree.nestingAll 1 pieces ≤ depthLimit := by
  constructor
  · intro h
    unfold read at h
    split at h
    · next pieces script hdone =>
      cases h
      exact ⟨pieces, rfl, template_taken ⟨script, hdone⟩⟩
    · cases h
    · cases h
    · cases h
  · rintro ⟨pieces, rfl, htemplate, hnesting⟩
    have hparses : template text = _ := template_parses htemplate hnesting
    unfold read
    rw [hparses]

end TreeGrammar

end LiveTemplate
