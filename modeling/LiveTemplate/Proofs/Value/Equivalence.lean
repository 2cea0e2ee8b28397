import LiveTemplate.Proofs.Json.Document
import LiveTemplate.Proofs.Styling.Equality
import LiveTemplate.Proofs.Value.Expansion
/-!
# Equality of expanded values is a partial equivalence

Expanded values are equal in one of a few ways: as scalars, part by part, element by element, entry by
entry, or because they are one.  Each way is symmetric and transitive by itself, and no two of them mix.

One map is compared with another one in one direction only: its entries are looked up there.  The other
direction is a matter of counting.  If the keys of the first map are all different, are found among
those of the second one, and are as many, then the keys of the two maps are the same ones.
-/

set_option autoImplicit false

namespace LiveTemplate.Value

variable {a b c : Value}

/-! ## The ways to be equal -/

/-- The ways in which expanded values are equal. -/
inductive Agree : Value → Value → Prop
  | null : Agree .null .null
  | bool (p : Bool) : Agree (.bool p) (.bool p)
  | number {x y : Float} : (x == y) = true → Agree (.number x) (.number y)
  | text (s : String) : Agree (.text s) (.text s)
  | absolute {x y : Float} : (x == y) = true → Agree (.absolute x) (.absolute y)
  | relative {x y : Float} : (x == y) = true → Agree (.relative x) (.relative y)
  | auto : Agree .auto .auto
  | color (value : Color) : Agree (.color value) (.color value)
  | styling {ref ref' : Ref} {s t : Styling} : s.same t = true →
      Agree (.styling ref s) (.styling ref' t)
  | filter {ref ref' : Ref} {name : String} {properties others : List (String × Value)} :
      sameEntries properties others = true →
      Agree (.filter ref name properties) (.filter ref' name others)
  | items {a b : Value} {items others : List Value} : a.fixedItems? = some items →
      b.fixedItems? = some others → sameItems items others = true → Agree a b
  | entries {a b : Value} {entries others : List (String × Value)} :
      a.fixedEntries? = some entries → b.fixedEntries? = some others →
      entries.length = others.length → foundIn entries others = true → Agree a b
  | identity {a b : Value} : a.kind = b.kind → a.kind.comparesByIdentity = true →
      isIdentical a b = true → Agree a b

theorem fixedItems_cases {items : List Value} (h : a.fixedItems? = some items) :
    (∃ ref, a = .array ref items) ∨ ∃ ref label, a = .handle ref .array label ∧ items = [] := by
  unfold fixedItems? at h
  split at h
  · cases h
    exact .inl ⟨_, rfl⟩
  · cases h
    exact .inr ⟨_, _, rfl, rfl⟩
  · cases h

theorem fixedEntries_cases {entries : List (String × Value)} (h : a.fixedEntries? = some entries) :
    (∃ ref, a = .map ref entries) ∨ ∃ ref label, a = .handle ref .map label ∧ entries = [] := by
  unfold fixedEntries? at h
  split at h
  · cases h
    exact .inl ⟨_, rfl⟩
  · cases h
    exact .inr ⟨_, _, rfl, rfl⟩
  · cases h

theorem kind_of_fixedItems {items : List Value} (h : a.fixedItems? = some items) :
    a.kind = .array := by
  rcases fixedItems_cases h with ⟨_, rfl⟩ | ⟨_, _, rfl, -⟩ <;> rfl

theorem kind_of_fixedEntries {entries : List (String × Value)}
    (h : a.fixedEntries? = some entries) : a.kind = .map := by
  rcases fixedEntries_cases h with ⟨_, rfl⟩ | ⟨_, _, rfl, -⟩ <;> rfl

/-- What shows elements is compared element by element. -/
theorem sameExpanded_of_fixedItems {items : List Value} (h : a.fixedItems? = some items) :
    sameExpanded a b = b.fixedItems?.any fun others => sameItems items others := by
  rcases fixedItems_cases h with ⟨_, rfl⟩ | ⟨_, _, rfl, rfl⟩
  · rfl
  · simp only [sameExpanded]
    congr 1
    funext others
    cases others <;> rfl

/-- What shows entries is compared entry by entry. -/
theorem sameExpanded_of_fixedEntries {entries : List (String × Value)}
    (h : a.fixedEntries? = some entries) :
    sameExpanded a b = b.fixedEntries?.any fun others =>
      entries.length == others.length && foundIn entries others := by
  rcases fixedEntries_cases h with ⟨_, rfl⟩ | ⟨_, _, rfl, rfl⟩
  · rfl
  · simp only [sameExpanded]
    congr 1
    funext others
    cases others <;> rfl

/-- Some kinds are compared by identity alone. -/
theorem sameExpanded_of_identity (h : a.kind.comparesByIdentity = true) :
    sameExpanded a b = (a.kind == b.kind && isIdentical a b) := by
  cases a with
  | handle ref kind label =>
    have hkind : kind.comparesByIdentity = true := h
    cases kind with
    | array | map => cases h
    | _ => simp [sameExpanded, Value.kind, hkind]
  | styling ref value => cases value <;> cases h
  | view ref document path => rw [comparesByIdentity_view] at h; cases h
  | node | symbol | function | easing | context => simp [sameExpanded, h]
  | _ => cases h

/-- Values that are equal are so in one of these ways. -/
theorem agree_of_same (h : sameExpanded a b = true) : Agree a b := by
  cases hitems : a.fixedItems? with
  | some items =>
    rw [sameExpanded_of_fixedItems hitems, Option.any_eq_true] at h
    obtain ⟨others, hothers, hsame⟩ := h
    exact .items hitems hothers hsame
  | none =>
    cases hentries : a.fixedEntries? with
    | some entries =>
      rw [sameExpanded_of_fixedEntries hentries, Option.any_eq_true] at h
      obtain ⟨others, hothers, hsame⟩ := h
      simp only [Bool.and_eq_true, beq_iff_eq] at hsame
      exact .entries hentries hothers hsame.1 hsame.2
    | none =>
      cases hkind : a.kind.comparesByIdentity with
      | true =>
        rw [sameExpanded_of_identity hkind, Bool.and_eq_true, beq_iff_eq] at h
        exact .identity h.1 hkind h.2
      | false =>
        -- what is left is compared by what it is made of
        unfold sameExpanded at h
        split at h
        · exact .null
        · rw [beq_iff_eq.mp h]
          exact .bool _
        · exact .number h
        · rw [beq_iff_eq.mp h]
          exact .text _
        · exact .absolute h
        · exact .relative h
        · exact .auto
        · rw [beq_iff_eq.mp h]
          exact .color _
        · exact .styling h
        · obtain ⟨hname, hsame⟩ := Bool.and_eq_true_iff.mp h
          rw [beq_iff_eq.mp hname]
          exact .filter hsame
        · cases hitems
        · cases hentries
        · next ref kind label =>
          cases kind with
          | array => cases hitems
          | map => cases hentries
          | _ => simp_all [Value.kind]
        · simp [hkind] at h

theorem same_of_agree (h : Agree a b) : sameExpanded a b = true := by
  cases h with
  | null | auto => rfl
  | bool p => exact beq_self_eq_true p
  | text s => exact beq_self_eq_true s
  | color value => exact beq_self_eq_true value
  | number h | absolute h | relative h | styling h => exact h
  | filter h => simp [sameExpanded, h]
  | items ha hb h => simp [sameExpanded_of_fixedItems ha, hb, h]
  | entries ha hb hlength h => simp [sameExpanded_of_fixedEntries ha, hb, hlength, h]
  | identity hkind hcompares h => simp [sameExpanded_of_identity hcompares, hkind, h]

/-! ## The parts that are compared -/

/-- The first value is one of those that the second one is compared by. -/
inductive IsPart : Value → Value → Prop
  | item {a v : Value} {items : List Value} : a.fixedItems? = some items → v ∈ items → IsPart v a
  | entry {a : Value} {entry : String × Value} {entries : List (String × Value)} :
      a.fixedEntries? = some entries → entry ∈ entries → IsPart entry.2 a
  | property {ref : Ref} {name : String} {entry : String × Value}
      {properties : List (String × Value)} : entry ∈ properties →
      IsPart entry.2 (.filter ref name properties)

/-- Induction along the parts. -/
@[elab_as_elim]
theorem part_induction {P : Value → Prop} (h : ∀ a, (∀ v, IsPart v a → P v) → P a) (a : Value) :
    P a := by
  induction a using nested_induction with
  | atom a hatom =>
    refine h a fun v hv => ?_
    cases hv with
    | item hitems hv =>
      rcases fixedItems_cases hitems with ⟨_, rfl⟩ | ⟨_, _, -, rfl⟩
      · exact hatom.elim
      · cases hv
    | entry hentries hv =>
      rcases fixedEntries_cases hentries with ⟨_, rfl⟩ | ⟨_, _, -, rfl⟩
      · exact hatom.elim
      · cases hv
    | property => exact hatom.elim
  | array ref items ih =>
    refine h _ fun v hv => ?_
    cases hv with
    | item hitems hv =>
      cases hitems
      exact ih v hv
    | entry hentries => cases hentries
  | map ref entries ih =>
    refine h _ fun v hv => ?_
    cases hv with
    | item hitems => cases hitems
    | entry hentries hv =>
      cases hentries
      exact ih _ hv
  | node ref op operands _ =>
    refine h _ fun v hv => ?_
    cases hv with
    | item hitems => cases hitems
    | entry hentries => cases hentries
  | filter ref name properties ih =>
    refine h _ fun v hv => ?_
    cases hv with
    | item hitems => cases hitems
    | entry hentries => cases hentries
    | property hv => exact ih _ hv

/-- In the maps that take part each key stands once. -/
inductive Keyed : Value → Prop
  | intro {a : Value} : (∀ entries, a.fixedEntries? = some entries →
      (entries.map fun entry => entry.1).Nodup) → (∀ v, IsPart v a → Keyed v) → Keyed a

/-! ## What the comparisons ask -/

/-- Lists of values are equal if they are as long and equal at each index. -/
theorem sameItems_iff {items others : List Value} :
    sameItems items others = true ↔ items.length = others.length ∧
      ∀ i (hi : i < items.length) (ho : i < others.length),
        sameExpanded items[i] others[i] = true := by
  suffices h : sameItems items others = true ↔
      List.Forall₂ (fun v w => sameExpanded v w = true) items others from
    h.trans List.forall₂_iff_get
  induction items generalizing others with
  | nil => cases others <;> simp [sameItems]
  | cons v rest ih => cases others <;> simp [sameItems, ih]

/-- Lists of entries are equal if they are as long and have equal entries at each index. -/
theorem sameEntries_iff {entries others : List (String × Value)} :
    sameEntries entries others = true ↔ entries.length = others.length ∧
      ∀ i (hi : i < entries.length) (ho : i < others.length),
        entries[i].1 = others[i].1 ∧ sameExpanded entries[i].2 others[i].2 = true := by
  suffices h : sameEntries entries others = true ↔
      List.Forall₂ (fun v w => v.1 = w.1 ∧ sameExpanded v.2 w.2 = true) entries others from
    h.trans List.forall₂_iff_get
  induction entries generalizing others with
  | nil => cases others <;> simp [sameEntries]
  | cons v rest ih => cases others <;> simp [sameEntries, ih]

/-- A map is found in another one if each of its keys is there, with an equal value. -/
theorem foundIn_iff {entries others : List (String × Value)} :
    foundIn entries others = true ↔ ∀ entry ∈ entries, ∃ w,
      Json.lookup? entry.1 others = some w ∧ sameExpanded entry.2 w = true := by
  induction entries with
  | nil => simp [foundIn]
  | cons entry rest ih => simp [foundIn, ih, Option.any_eq_true]

/-- Values are identical if they have one identity. -/
theorem isIdentical_iff :
    isIdentical a b = true ↔ ∃ x, a.identity? = some x ∧ b.identity? = some x := by
  unfold isIdentical
  cases a.identity? with
  | none => simp
  | some x =>
    cases b.identity? with
    | none => simp
    | some y => simpa using eq_comm

/-! ## Symmetry -/

theorem isIdentical_symm (h : isIdentical a b = true) : isIdentical b a = true := by
  obtain ⟨x, ha, hb⟩ := isIdentical_iff.mp h
  exact isIdentical_iff.mpr ⟨x, hb, ha⟩

theorem sameItems_symm {items others : List Value}
    (h : ∀ v ∈ items, ∀ w, sameExpanded v w = true → sameExpanded w v = true)
    (hsame : sameItems items others = true) : sameItems others items = true := by
  rw [sameItems_iff] at hsame ⊢
  exact ⟨hsame.1.symm, fun i hi ho => h _ (List.getElem_mem ho) _ (hsame.2 i ho hi)⟩

theorem sameEntries_symm {entries others : List (String × Value)}
    (h : ∀ entry ∈ entries, ∀ w, sameExpanded entry.2 w = true → sameExpanded w entry.2 = true)
    (hsame : sameEntries entries others = true) : sameEntries others entries = true := by
  rw [sameEntries_iff] at hsame ⊢
  refine ⟨hsame.1.symm, fun i hi ho => ?_⟩
  obtain ⟨hkey, hvalue⟩ := hsame.2 i ho hi
  exact ⟨hkey.symm, h _ (List.getElem_mem ho) _ hvalue⟩

/-- **One direction is enough**, if each key of the first map stands there once. -/
theorem foundIn_symm {entries others : List (String × Value)}
    (hkeys : (entries.map fun entry => entry.1).Nodup) (hlength : entries.length = others.length)
    (h : ∀ entry ∈ entries, ∀ w, sameExpanded entry.2 w = true → sameExpanded w entry.2 = true)
    (hfound : foundIn entries others = true) : foundIn others entries = true := by
  rw [foundIn_iff] at hfound ⊢
  have hsubset : (entries.map fun entry => entry.1) ⊆ others.map fun other => other.1 := by
    intro key hkey
    obtain ⟨entry, hentry, rfl⟩ := List.mem_map.mp hkey
    obtain ⟨w, hlookup, -⟩ := hfound entry hentry
    exact List.mem_map.mpr ⟨(entry.1, w), Json.mem_of_lookup hlookup, rfl⟩
  -- the keys of the first map are different, stand in the second one, and are as many
  have hperm := (hkeys.subperm hsubset).perm_of_length_le (by simp [hlength])
  intro other hother
  -- the other key is one of the keys of the first map, and both maps have it once
  have hkey : other.1 ∈ entries.map fun entry => entry.1 :=
    hperm.mem_iff.mpr (List.mem_map_of_mem hother)
  obtain ⟨entry, hentry, heq⟩ := List.mem_map.mp hkey
  obtain ⟨w, hlookup, hsame⟩ := hfound entry hentry
  have hother' := Json.lookup_of_distinct (hperm.nodup_iff.mp hkeys) hother
  obtain rfl : w = other.2 := by
    rw [heq, hother'] at hlookup
    exact (Option.some.inj hlookup).symm
  exact ⟨entry.2, heq ▸ Json.lookup_of_distinct hkeys hentry, h entry hentry _ hsame⟩

/-- **Equality of expanded values is symmetric.** -/
theorem sameExpanded_symm (ha : Keyed a) (hsame : sameExpanded a b = true) :
    sameExpanded b a = true := by
  induction ha generalizing b with
  | @intro a hkeys _ ih =>
    refine same_of_agree ?_
    cases agree_of_same hsame with
    | null => exact .null
    | bool p => exact .bool p
    | number h => exact .number (beq_double_symm h)
    | text s => exact .text s
    | absolute h => exact .absolute (beq_double_symm h)
    | relative h => exact .relative (beq_double_symm h)
    | auto => exact .auto
    | color value => exact .color value
    | styling h => exact .styling (Styling.same_symm h)
    | filter h => exact .filter (sameEntries_symm (fun entry he w => ih _ (.property he)) h)
    | items ha hb h => exact .items hb ha (sameItems_symm (fun v hv w => ih v (.item ha hv)) h)
    | entries ha hb hlength h =>
      refine .entries hb ha hlength.symm ?_
      exact foundIn_symm (hkeys _ ha) hlength (fun entry he w => ih _ (.entry ha he)) h
    | identity hkind hcompares h =>
      exact .identity hkind.symm (hkind ▸ hcompares) (isIdentical_symm h)

/-! ## Transitivity -/

theorem isIdentical_trans (h : isIdentical a b = true) (k : isIdentical b c = true) :
    isIdentical a c = true := by
  obtain ⟨x, ha, hb⟩ := isIdentical_iff.mp h
  obtain ⟨y, hb', hc⟩ := isIdentical_iff.mp k
  obtain rfl : x = y := Option.some.inj (hb.symm.trans hb')
  exact isIdentical_iff.mpr ⟨x, ha, hc⟩

theorem sameItems_trans {items others thirds : List Value}
    (h : ∀ v ∈ items, ∀ w x, sameExpanded v w = true → sameExpanded w x = true →
      sameExpanded v x = true)
    (hfirst : sameItems items others = true) (hsecond : sameItems others thirds = true) :
    sameItems items thirds = true := by
  rw [sameItems_iff] at hfirst hsecond ⊢
  refine ⟨hfirst.1.trans hsecond.1, fun i hi ht => ?_⟩
  have ho : i < others.length := hfirst.1 ▸ hi
  exact h _ (List.getElem_mem hi) _ _ (hfirst.2 i hi ho) (hsecond.2 i ho ht)

theorem sameEntries_trans {entries others thirds : List (String × Value)}
    (h : ∀ entry ∈ entries, ∀ w x, sameExpanded entry.2 w = true → sameExpanded w x = true →
      sameExpanded entry.2 x = true)
    (hfirst : sameEntries entries others = true) (hsecond : sameEntries others thirds = true) :
    sameEntries entries thirds = true := by
  rw [sameEntries_iff] at hfirst hsecond ⊢
  refine ⟨hfirst.1.trans hsecond.1, fun i hi ht => ?_⟩
  have ho : i < others.length := hfirst.1 ▸ hi
  obtain ⟨hkey, hvalue⟩ := hfirst.2 i hi ho
  obtain ⟨hkey', hvalue'⟩ := hsecond.2 i ho ht
  exact ⟨hkey.trans hkey', h _ (List.getElem_mem hi) _ _ hvalue hvalue'⟩

theorem foundIn_trans {entries others thirds : List (String × Value)}
    (h : ∀ entry ∈ entries, ∀ w x, sameExpanded entry.2 w = true → sameExpanded w x = true →
      sameExpanded entry.2 x = true)
    (hfirst : foundIn entries others = true) (hsecond : foundIn others thirds = true) :
    foundIn entries thirds = true := by
  rw [foundIn_iff] at hfirst hsecond ⊢
  intro entry hentry
  obtain ⟨w, hlookup, hv⟩ := hfirst entry hentry
  obtain ⟨x, hlookup', hw⟩ := hsecond (entry.1, w) (Json.mem_of_lookup hlookup)
  exact ⟨x, hlookup', h entry hentry w x hv hw⟩

/-- **Equality of expanded values is transitive.** -/
theorem sameExpanded_trans (a : Value) : ∀ b c, sameExpanded a b = true → sameExpanded b c = true →
    sameExpanded a c = true := by
  induction a using part_induction with
  | h a ih =>
    intro b c hfirst hsecond
    refine same_of_agree ?_
    cases agree_of_same hfirst with
    | items ha hb h =>
      rw [sameExpanded_of_fixedItems hb, Option.any_eq_true] at hsecond
      obtain ⟨thirds, hc, h'⟩ := hsecond
      exact .items ha hc (sameItems_trans (fun v hv => ih v (.item ha hv)) h h')
    | entries ha hb hlength h =>
      rw [sameExpanded_of_fixedEntries hb, Option.any_eq_true] at hsecond
      obtain ⟨thirds, hc, h'⟩ := hsecond
      simp only [Bool.and_eq_true, beq_iff_eq] at h'
      exact .entries ha hc (hlength.trans h'.1)
        (foundIn_trans (fun entry he => ih _ (.entry ha he)) h h'.2)
    | identity hkind hcompares h =>
      rw [sameExpanded_of_identity (hkind ▸ hcompares), Bool.and_eq_true, beq_iff_eq] at hsecond
      exact .identity (hkind.trans hsecond.1) hcompares (isIdentical_trans h hsecond.2)
    | null | bool | text | auto | color => exact agree_of_same hsecond
    | number h =>
      cases agree_of_same hsecond with
      | number k => exact .number (beq_double_trans h k)
      | items hb | entries hb | identity _ hb => cases hb
    | absolute h =>
      cases agree_of_same hsecond with
      | absolute k => exact .absolute (beq_double_trans h k)
      | items hb | entries hb | identity _ hb => cases hb
    | relative h =>
      cases agree_of_same hsecond with
      | relative k => exact .relative (beq_double_trans h k)
      | items hb | entries hb | identity _ hb => cases hb
    | @styling _ _ s t h =>
      cases agree_of_same hsecond with
      | styling k => exact .styling (Styling.same_trans h k)
      | items hb | entries hb => cases hb
      | identity _ hb => cases t <;> cases hb
    | filter h =>
      cases agree_of_same hsecond with
      | filter k => exact .filter (sameEntries_trans (fun entry he => ih _ (.property he)) h k)
      | items hb | entries hb | identity _ hb => cases hb

/-! ## Reflexivity -/

/-- The doubles that the value itself is made of, besides its parts. -/
def numbers : Value → List Float
  | .number x | .absolute x | .relative x => [x]
  | .styling _ value => value.numbers
  | _ => []

/-- The value can be compared: it is a container with its content, or its content is all that it is, or
it has an identity to be compared by. -/
def isComparable : Value → Bool
  | .mutableArray _ | .mutableMap _ | .view .. => false
  | .handle _ kind _ => kind.comparesByIdentity
  | _ => true

theorem sameItems_self {items : List Value} (h : ∀ v ∈ items, sameExpanded v v = true) :
    sameItems items items = true :=
  sameItems_iff.mpr ⟨rfl, fun _ hi _ => h _ (List.getElem_mem hi)⟩

theorem sameEntries_self {entries : List (String × Value)}
    (h : ∀ entry ∈ entries, sameExpanded entry.2 entry.2 = true) :
    sameEntries entries entries = true :=
  sameEntries_iff.mpr ⟨rfl, fun _ hi _ => ⟨rfl, h _ (List.getElem_mem hi)⟩⟩

theorem foundIn_self {entries : List (String × Value)}
    (hkeys : (entries.map fun entry => entry.1).Nodup)
    (h : ∀ entry ∈ entries, sameExpanded entry.2 entry.2 = true) :
    foundIn entries entries = true :=
  foundIn_iff.mpr fun entry hentry =>
    ⟨entry.2, Json.lookup_of_distinct hkeys hentry, h entry hentry⟩

theorem isIdentical_self (h : a.identity?.isSome) : isIdentical a a = true := by
  obtain ⟨x, hx⟩ := Option.isSome_iff_exists.mp h
  exact isIdentical_iff.mpr ⟨x, hx, hx⟩

/-- **What equals itself.**  A value that can be compared equals itself if its numbers are numbers, its
keys are all different and its parts equal themselves. -/
theorem sameExpanded_self (hcomparable : a.isComparable = true)
    (hnumbers : ∀ x ∈ a.numbers, x.isNaN = false)
    (hkeys : ∀ entries, a.fixedEntries? = some entries → (entries.map fun entry => entry.1).Nodup)
    (hparts : ∀ v, IsPart v a → sameExpanded v v = true) : sameExpanded a a = true := by
  refine same_of_agree ?_
  cases a with
  | null => exact .null
  | bool p => exact .bool p
  | number x => exact .number (beq_double_self (hnumbers x List.mem_cons_self))
  | text s => exact .text s
  | absolute x => exact .absolute (beq_double_self (hnumbers x List.mem_cons_self))
  | relative x => exact .relative (beq_double_self (hnumbers x List.mem_cons_self))
  | auto => exact .auto
  | color value => exact .color value
  | styling ref value => exact .styling (Styling.same_self hnumbers)
  | filter ref name properties =>
    exact .filter (sameEntries_self fun entry he => hparts _ (.property he))
  | array ref items => exact .items rfl rfl (sameItems_self fun v hv => hparts v (.item rfl hv))
  | map ref entries =>
    exact .entries rfl rfl rfl (foundIn_self (hkeys _ rfl) fun entry he => hparts _ (.entry rfl he))
  | node | symbol | function | easing | context => exact .identity rfl rfl (isIdentical_self rfl)
  | handle ref kind label => exact .identity rfl hcomparable (isIdentical_self rfl)
  | mutableArray | mutableMap | view => cases hcomparable

end LiveTemplate.Value
