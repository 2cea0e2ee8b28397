import LiveTemplate.Proofs.Run.Related
import LiveTemplate.Proofs.Value.Blur
/-!
# Calls

What is to be said of every function of the library: like arguments give like results, whatever is
blurred, a call ends in a value or in the overflow of a day count, and a pure function leaves
nothing behind but references.

Most functions convert their arguments to numbers or texts and look no further, so that for like
arguments they *are* the same computation.  Three look inside: `Array.indexOf` compares the elements
of an array, `Array.slice` and `gather` give back values that they were given.
-/

set_option autoImplicit false

namespace LiveTemplate

open Value
open Run (Related)

/-! ## Which links allow a call -/

/-- The link can tell what an impure function leaves behind. -/
def Effects.Exact (link : Effects → Effects → Prop) : Prop := ∀ e f, link e f ↔ e.Agree f

namespace Library

variable (store : Store) (B : Blur store) {link : Effects → Effects → Prop}

theorem record_related {lone : Fault → Prop} (h : Effects.Exact link) (ref : Ref) (builtin : Builtin) :
    Related link lone (fun _ _ => True) (Run.record ref builtin) (Run.record ref builtin) := by
  intro e f he
  have he := (h e f).mp he
  have hcalls : (⟨ref, builtin⟩ :: e.calls : List ImpureCall) = ⟨ref, builtin⟩ :: f.calls :=
    congrArg _ he.calls
  exact .values trivial ((h _ _).mpr ⟨he.seed, hcalls⟩)

theorem draw_related {lone : Fault → Prop} (h : Effects.Exact link) :
    Related link lone (fun x y => x = y) Run.draw Run.draw := by
  intro e f he
  have he := (h e f).mp he
  have hseed : Effects.step e.seed = Effects.step f.seed := congrArg _ he.seed
  exact .values (congrArg Effects.fraction hseed) ((h _ _).mpr ⟨hseed, he.calls⟩)

theorem get_related {lone : Fault → Prop} (h : Effects.Exact link) (builtin : Builtin) :
    Related link lone (fun e f => e.count builtin = f.count builtin) (get : Run Effects) get := by
  intro e f he
  have hcalls : e.calls = f.calls := ((h e f).mp he).calls
  exact .values (congrArg (List.countP _) hcalls) he

/-- The computation gives like values each time, and leaves linked effects behind. -/
abbrev Steady {store : Store} (B : Blur store) (link : Effects → Effects → Prop) (c : Run Value) :
    Prop :=
  Related link Run.Never B.Like c c

variable {store}

theorem array_related (hl : Effects.Loose link) {xs ys : List Value} (h : B.LikeAll xs ys) :
    Related link Run.Never B.Like (Run.array xs) (Run.array ys) :=
  .fresh_bind hl fun _ _ => .pure (B.array h)

theorem map_related (hl : Effects.Loose link) {xs ys : List (String × Value)}
    (h : B.LikeEntries xs ys) : Related link Run.Never B.Like (Run.map xs) (Run.map ys) :=
  .fresh_bind hl fun _ _ => .pure (B.map h)

theorem steady_array (hl : Effects.Loose link) (items : List Value) :
    Steady B link (Run.array items) := array_related B hl rfl

theorem steady_rangeArray (hl : Effects.Loose link) (start stop step : Float) :
    Steady B link (rangeArray start stop step) := by
  unfold rangeArray
  split
  · exact .pure rfl
  · exact steady_array B hl _

theorem steady_ofExcept (result : Except Fault Value) : Steady B link (Run.ofExcept result) := by
  cases result with
  | ok v => exact .pure rfl
  | error fault => exact .throw fault

theorem steady_random (h : Effects.Exact link) (ref : Ref) (args : List Value) :
    Steady B link (call store ref .random args) :=
  (record_related h ref .random).bind fun _ _ _ => (draw_related h).bind fun _ _ hxy =>
    .pure (congrArg (fun x => B.blur (number x)) hxy)

theorem steady_counter (h : Effects.Exact link) (ref : Ref) (args : List Value) :
    Steady B link (call store ref .counter args) :=
  (record_related h ref .counter).bind fun _ _ _ => (get_related h .counter).bind fun _ _ hef =>
    .pure (congrArg (fun (n : Nat) => B.blur (number (Number.ofInt n))) hef)

/-- A call gives like results each time, if it is pure or the link tells what calls leave
behind. -/
theorem steady_call (hl : Effects.Loose link) (ref : Ref) (builtin : Builtin)
    (hi : builtin.isPure = true ∨ Effects.Exact link) (args : List Value) :
    Steady B link (call store ref builtin args) := by
  by_cases hp : builtin.isPure = true
  · unfold call
    split
    all_goals first
      | exact .pure rfl
      | exact steady_array B hl _
      | exact steady_rangeArray B hl _ _ _
      | exact steady_ofExcept B _
      | exact absurd hp (by decide)
      | skip
    -- what is left looks whether an argument has elements, keys or bounds
    · split <;> exact .pure rfl
    · split <;> exact .pure rfl
    · split
      · split
        · exact steady_array B hl _
        · exact .pure rfl
      · exact .pure rfl
    · split
      · exact steady_array B hl _
      · exact .pure rfl
  · cases builtin with
    | random => exact steady_random B (hi.resolve_left hp) ref args
    | counter => exact steady_counter B (hi.resolve_left hp) ref args
    | _ => exact absurd rfl hp

/-! ## Like arguments -/

/-- Does the function look at more of its arguments than outlines? -/
def looksInside : Builtin → Bool
  | .indexOf | .arraySlice | .gather | .keys => true
  | _ => false

theorem sliceBy_outline {α : Type} (sequence : List α) (bounds : List Value) :
    sliceBy? sequence (bounds.map outline) = sliceBy? sequence bounds := by
  rcases bounds with _ | ⟨a, _ | ⟨b, _ | ⟨c, rest⟩⟩⟩
  · rfl
  · simp only [List.map_cons, List.map_nil, sliceBy?, toNumber_outline]
  · simp only [List.map_cons, List.map_nil, sliceBy?, toNumber_outline]
  · rfl

theorem map_toNumber_outline (args : List Value) :
    (args.map outline).map toNumber = args.map toNumber := by
  rw [List.map_map]
  exact List.map_congr_left fun v _ => toNumber_outline v

/-- A function that does not look inside its arguments sees nothing but their outlines. -/
theorem call_outline (ref : Ref) {builtin : Builtin} (h : looksInside builtin = false)
    (args : List Value) : call store ref builtin (args.map outline) = call store ref builtin args := by
  cases builtin
  case indexOf | arraySlice | gather | keys => cases h
  case random | counter => rfl
  case mathHypot | mathMax | mathMin => simp only [call, map_toNumber_outline]
  case textSlice =>
    cases args with
    | nil => rfl
    | cons s bounds => simp only [List.map_cons, call, toText_outline, sliceBy_outline]
  all_goals
    rcases args with _ | ⟨x, _ | ⟨y, _ | ⟨z, _ | ⟨w, rest⟩⟩⟩⟩ <;>
      simp only [List.map_cons, List.map_nil, call, toNumber_outline, toText_outline,
        toInt32_outline, int_outline]

variable {B}

theorem indexOf_like {xs ys : List Value} (h : B.LikeAll xs ys) {v w : Value} (hvw : B.Like v w)
    (hv : B.Comparable v) : indexOf store xs v = indexOf store ys w := by
  have hfind : xs.findIdx? (fun item => item.same store v) = ys.findIdx? fun item => item.same store w := by
    rw [Blur.likeAll_iff] at h
    induction h with
    | nil => rfl
    | cons hxy _ ih => rw [List.findIdx?_cons, List.findIdx?_cons, ih, B.same hxy hvw hv]
  unfold indexOf
  rw [hfind]

theorem slice_map {α β : Type} (f : α → β) (sequence : List α) (start stop : Option Float) :
    slice (sequence.map f) start stop = (slice sequence start stop).map f := by
  unfold slice
  rw [List.length_map, List.map_take, List.map_drop]

theorem sliceBy_map {α β : Type} (f : α → β) (sequence : List α) (bounds : List Value) :
    sliceBy? (sequence.map f) bounds = (sliceBy? sequence bounds).map (List.map f) := by
  rcases bounds with _ | ⟨a, _ | ⟨b, _ | ⟨c, rest⟩⟩⟩
  · exact congrArg some (slice_map f sequence _ _)
  · exact congrArg some (slice_map f sequence _ _)
  · exact congrArg some (slice_map f sequence _ _)
  · rfl

theorem sliceBy_like {xs ys bounds bounds' : List Value} (h : B.LikeAll xs ys)
    (hb : B.LikeAll bounds bounds') :
    (sliceBy? xs bounds).map (List.map B.blur) = (sliceBy? ys bounds').map (List.map B.blur) := by
  rw [← sliceBy_map, ← sliceBy_map, hb.congr (sliceBy_outline _),
    show xs.map B.blur = _ from h]

theorem call_indexOf (ref : Ref) {a a' v v' : Value} (ha : B.Like a a') (hv : B.Like v v')
    (hcomparable : B.Comparable v) :
    call store ref .indexOf [a, v] = call store ref .indexOf [a', v'] := by
  have hindex := indexOf_like (ha.items) hv hcomparable
  have hkind : a.kind = a'.kind := ha.kind
  by_cases harray : (a'.kind == .array) = true
  · simp only [call, itemsOf?, hkind, harray, if_true, hindex]
  · simp only [call, itemsOf?, hkind, harray]
    rfl

theorem call_arraySlice (hl : Effects.Loose link) (ref : Ref) {a a' : Value} (ha : B.Like a a')
    {bounds bounds' : List Value} (hb : B.LikeAll bounds bounds') :
    Related link Run.Never B.Like (call store ref .arraySlice (a :: bounds))
      (call store ref .arraySlice (a' :: bounds')) := by
  have hpart := sliceBy_like (ha.items) hb
  have hkind : a.kind = a'.kind := ha.kind
  by_cases harray : (a'.kind == .array) = true
  · simp only [call, itemsOf?, hkind, harray, if_true]
    revert hpart
    generalize sliceBy? (a.items store) bounds = part, sliceBy? (a'.items store) bounds' = part'
    intro hpart
    cases part with
    | none =>
      obtain rfl : part' = none := by simpa using hpart.symm
      exact .pure rfl
    | some items =>
      obtain ⟨items', rfl, hitems⟩ : ∃ items', part' = some items' ∧
          items'.map B.blur = items.map B.blur := by simpa using hpart.symm
      exact array_related B hl hitems.symm
  · simp only [call, itemsOf?, hkind, harray]
    exact .pure rfl

theorem call_keys (hl : Effects.Loose link) (ref : Ref) {a a' : Value} (ha : B.Like a a') :
    Related link Run.Never B.Like (call store ref .keys [a]) (call store ref .keys [a']) := by
  simp only [call, ha.kind, ha.keys]
  split
  · exact steady_array B hl _
  · exact .pure rfl

/-- **Like arguments give like results**, if the call is pure or the link tells what calls leave
behind. -/
theorem call_related (hl : Effects.Loose link) (ref : Ref) (builtin : Builtin)
    (hi : builtin.isPure = true ∨ Effects.Exact link) {xs ys : List Value} (h : B.LikeAll xs ys)
    (hcomparable : ∀ v ∈ xs, B.Comparable v) :
    Related link Run.Never B.Like (call store ref builtin xs) (call store ref builtin ys) := by
  by_cases hb : looksInside builtin = false
  · rw [h.congr (call_outline ref hb)]
    exact steady_call B hl ref builtin hi ys
  · cases builtin
    case gather => exact array_related B hl h
    case indexOf =>
      rcases Blur.likeAll_iff.mp h with _ | ⟨harray, _ | ⟨hvalue, _ | ⟨_, _⟩⟩⟩
      · exact .pure rfl
      · exact .pure rfl
      · rw [call_indexOf ref harray hvalue (hcomparable _ (by simp))]
        exact steady_call B hl ref .indexOf hi _
      · exact .pure rfl
    case arraySlice =>
      rcases Blur.likeAll_iff.mp h with _ | ⟨harray, hbounds⟩
      · exact .pure rfl
      · exact call_arraySlice hl ref harray (Blur.likeAll_iff.mpr hbounds)
    case keys =>
      rcases Blur.likeAll_iff.mp h with _ | ⟨hmap, _ | ⟨_, _⟩⟩
      · exact .pure rfl
      · exact call_keys hl ref hmap
      · exact .pure rfl
    all_goals exact absurd rfl hb

end Library

end LiveTemplate
