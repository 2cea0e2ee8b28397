import LiveTemplate.Value.Serialization
import LiveTemplate.Proofs.Syntax.Tokens
import Mathlib
/-!
# Colors in hexadecimal digits

A text with a number sign in front is a color only if three, four, six or eight hexadecimal digits stand
behind it and blanks alone behind these.  The shorter forms stand for a form of eight digits
(`fullDigits?`), and the color is the one whose own text has these digits: so the text of a color is read
back, in capitals too.

The number of the digits is looked at after they have been read as a number, and the number of a short form is
taken apart again.  Both can be said of the digits alone: a number has the digits it was read from
(`hexDigits_ofHexDigits`), and the channels stand side by side in its word (`ofChannels_toNat`).
-/

set_option autoImplicit false

namespace LiveTemplate.Color

open Text (isBlank skipBlank)
open Grammar (Starts char_of_codes starts_cons takeWhile_run dropWhile_run)

variable {c : Char} {digits full letters before after rest : List Char} {count n : Nat} {color : Color}

/-! ## Digits -/

theorem isHexDigit_cases (h : isHexDigit c = true) : c.toNat < 103 := by
  unfold isHexDigit at h
  simp only [Bool.or_eq_true, Bool.and_eq_true, decide_eq_true_eq] at h
  rcases h with (⟨-, hle⟩ | ⟨-, hle⟩) | ⟨-, hle⟩
  · exact Nat.lt_of_le_of_lt (m := 57) hle (by decide)
  · exact Nat.lt_of_le_of_lt (m := 102) hle (by decide)
  · exact Nat.lt_of_le_of_lt (m := 70) hle (by decide)

/-- A small letter has no lesser code than its capital. -/
theorem toNat_le_toLower (c : Char) : c.toNat ≤ c.toLower.toNat := by
  unfold Char.toLower
  split
  · next hcapital =>
    have hle : c.toNat ≤ 90 := hcapital.2
    have hsum : (c.val + ('a'.val - 'A'.val)).toNat = c.toNat + 32 := by
      rw [UInt32.toNat_add]
      exact Nat.mod_eq_of_lt (show c.toNat + 32 < 2 ^ 32 by omega)
    show c.toNat ≤ (c.val + ('a'.val - 'A'.val)).toNat
    omega
  · exact Nat.le_refl _

/-- A digit has the same value in either case, and the small one is the one that is written. -/
theorem hexDigit_hexValue (h : isHexDigit c = true) : hexValue c < 16 ∧ c.toLower = Json.hexDigit (hexValue c) := by
  exact char_of_codes
    (p := fun c => isHexDigit c = true → hexValue c < 16 ∧ c.toLower = Json.hexDigit (hexValue c))
    (by decide +kernel) (isHexDigit_cases h) h

theorem hexValue_hexDigit (hn : n < 16) (h : c.toLower = Json.hexDigit n) :
    isHexDigit c = true ∧ hexValue c = n := by
  have hwritten : ∀ n < 16, (Json.hexDigit n).toNat < 103 := by decide
  have hlt : c.toNat < 103 := Nat.lt_of_le_of_lt (toNat_le_toLower c) (h ▸ hwritten n hn)
  exact char_of_codes
    (p := fun c => ∀ n < 16, c.toLower = Json.hexDigit n → isHexDigit c = true ∧ hexValue c = n)
    (by decide +kernel) hlt n hn h

/-! ## Numbers -/

/-- All are hexadecimal digits. -/
def AreHexDigits (digits : List Char) : Prop := ∀ d ∈ digits, isHexDigit d = true

theorem ofHexDigits_append (digits : List Char) (d : Char) :
    ofHexDigits (digits ++ [d]) = ofHexDigits digits * 16 + hexValue d := List.foldl_append

/-- A number has the digits that it was read from. -/
theorem hexDigits_ofHexDigits (h : AreHexDigits digits) : ofHexDigits digits < 16 ^ digits.length ∧
    hexDigits digits.length (ofHexDigits digits) = digits.map Char.toLower := by
  induction digits using List.reverseRecOn with
  | nil => exact ⟨Nat.one_pos, rfl⟩
  | append_singleton digits d ih =>
    obtain ⟨hlt, hagain⟩ := ih fun e he => h e (List.mem_append_left _ he)
    obtain ⟨hvalue, hlower⟩ := hexDigit_hexValue (h d (List.mem_append_right _ List.mem_cons_self))
    rw [ofHexDigits_append, List.length_append, List.length_singleton, hexDigits, List.map_append,
      show (ofHexDigits digits * 16 + hexValue d) / 16 = ofHexDigits digits by omega,
      show (ofHexDigits digits * 16 + hexValue d) % 16 = hexValue d by omega, hagain, ← hlower]
    refine ⟨?_, rfl⟩
    rw [Nat.pow_succ]
    omega

/-- Written digits are read as the number, in either case. -/
theorem ofHexDigits_written (h : letters.map Char.toLower = hexDigits count n) (hn : n < 16 ^ count) :
    AreHexDigits letters ∧ letters.length = count ∧ ofHexDigits letters = n := by
  induction count generalizing letters n with
  | zero =>
    obtain rfl : letters = [] := List.map_eq_nil_iff.mp h
    rw [Nat.pow_zero] at hn
    exact ⟨nofun, rfl, by rw [show n = 0 by omega]; rfl⟩
  | succ count ih =>
    rw [hexDigits] at h
    obtain ⟨letters, last, rfl, hletters, hlast⟩ := List.map_eq_append_iff.mp h
    obtain ⟨last, none, rfl, hlower, hnone⟩ := List.map_eq_cons_iff.mp hlast
    obtain rfl : none = [] := List.map_eq_nil_iff.mp hnone
    obtain ⟨hdigits, hlength, hnumber⟩ := ih hletters (by rw [Nat.pow_succ] at hn; omega)
    obtain ⟨hdigit, hvalue⟩ := hexValue_hexDigit (Nat.mod_lt n (by decide)) hlower
    refine ⟨fun d hd => ?_, ?_, ?_⟩
    · rcases List.mem_append.mp hd with hd | hd
      · exact hdigits d hd
      · exact List.mem_singleton.mp hd ▸ hdigit
    · rw [List.length_append, hlength]
      rfl
    · rw [ofHexDigits_append, hnumber, hvalue]
      omega

/-- Small digits are written. -/
theorem map_toLower_hexDigits (count n : Nat) : (hexDigits count n).map Char.toLower = hexDigits count n := by
  have hsmall : ∀ d < 16, (Json.hexDigit d).toLower = Json.hexDigit d := by decide
  induction count generalizing n with
  | zero => rfl
  | succ count ih =>
    rw [hexDigits, List.map_append, ih, List.map_singleton, hsmall _ (Nat.mod_lt n (by decide))]

/-! ## Channels -/

theorem or_byte (m : Nat) {k : Nat} (hk : k < 256) : m <<< 8 ||| k = m * 256 + k := by
  rw [← Nat.shiftLeft_add_eq_or_of_lt (show k < 2 ^ 8 from hk), Nat.shiftLeft_eq]

/-- The channels stand side by side. -/
theorem ofChannels_toNat (red green blue alpha : UInt8) : (ofChannels red green blue alpha).rgba.toNat
    = ((red.toNat * 256 + green.toNat) * 256 + blue.toNat) * 256 + alpha.toNat := by
  have hbyte (channel : UInt8) (i : Nat) (hi : i ≤ 24) : channel.toNat <<< i % 2 ^ 32 = channel.toNat <<< i := by
    refine Nat.mod_eq_of_lt ?_
    rw [Nat.shiftLeft_eq]
    calc channel.toNat * 2 ^ i < 2 ^ 8 * 2 ^ i := Nat.mul_lt_mul_of_pos_right channel.toNat_lt (Nat.two_pow_pos i)
      _ ≤ 2 ^ 8 * 2 ^ 24 := Nat.mul_le_mul_left _ (Nat.pow_le_pow_right (by decide) hi)
      _ = 2 ^ 32 := rfl
  have hword : (ofChannels red green blue alpha).rgba.toNat
      = red.toNat <<< (8 + 8 + 8) ||| green.toNat <<< (8 + 8) ||| blue.toNat <<< 8 ||| alpha.toNat := by
    rw [← hbyte red _ (by decide), ← hbyte green _ (by decide), ← hbyte blue _ (by decide)]
    simp only [ofChannels, UInt32.toNat_or, UInt32.toNat_shiftLeft, UInt8.toNat_toUInt32]
    rfl
  rw [hword, Nat.shiftLeft_add, Nat.shiftLeft_add, Nat.shiftLeft_add, ← Nat.shiftLeft_or_distrib,
    ← Nat.shiftLeft_or_distrib, ← Nat.shiftLeft_or_distrib, or_byte _ green.toNat_lt, or_byte _ blue.toNat_lt,
    or_byte _ alpha.toNat_lt]

/-- Six digits are moved to the left by two. -/
theorem solid_toNat (hn : n < 16 ^ 6) : ((UInt32.ofNat n <<< 8) ||| 0xFF).toNat = n * 256 + 255 := by
  have hshift : (UInt32.ofNat n <<< 8).toNat = n <<< 8 := by
    rw [UInt32.toNat_shiftLeft, UInt32.toNat_ofNat', Nat.mod_eq_of_lt (show n < 2 ^ 32 by omega)]
    refine Nat.mod_eq_of_lt ?_
    show n <<< 8 < 2 ^ 32
    rw [Nat.shiftLeft_eq]
    omega
  rw [UInt32.toNat_or, hshift]
  exact or_byte n (by decide)

/-! ## Forms -/

/-- The eight digits that the digits of a color stand for, if their number is right.  A digit of a channel by
itself is doubled, and a color without alpha is solid. -/
def fullDigits? : List Char → Option (List Char)
  | [r, g, b] => some [r, r, g, g, b, b, 'f', 'f']
  | [r, g, b, a] => some [r, r, g, g, b, b, a, a]
  | [r, r', g, g', b, b'] => some [r, r', g, g', b, b', 'f', 'f']
  | [r, r', g, g', b, b', a, a'] => some [r, r', g, g', b, b', a, a']
  | _ => none

theorem ofHex_none (h : digits.length ∉ [3, 4, 6, 8]) : ofHex? digits = none := by
  simp only [List.mem_cons, List.not_mem_nil, or_false, not_or] at h
  unfold ofHex?
  dsimp only
  split
  · next hlength => exact absurd hlength h.1
  · next hlength => exact absurd hlength h.2.1
  · next hlength => exact absurd hlength h.2.2.1
  · next hlength => exact absurd hlength h.2.2.2
  · rfl

theorem fullDigits_some :
    ∀ {digits : List Char}, digits.length ∈ [3, 4, 6, 8] → ∃ full, fullDigits? digits = some full
  | [_, _, _], _ | [_, _, _, _], _ | [_, _, _, _, _, _], _ | [_, _, _, _, _, _, _, _], _ => ⟨_, rfl⟩
  | [], h | [_], h | [_, _], h | [_, _, _, _, _], h | [_, _, _, _, _, _, _], h => by
    simp at h
  | _ :: _ :: _ :: _ :: _ :: _ :: _ :: _ :: _ :: rest, h => by
    simp only [List.length_cons, List.mem_cons, List.not_mem_nil, or_false] at h
    omega

theorem eq_ofNat (h : color.rgba.toNat = n) : color = ⟨UInt32.ofNat n⟩ := by
  rw [← h, UInt32.ofNat_toNat]

theorem ofHex_eight (h : digits.length = 8) : ofHex? digits = some ⟨UInt32.ofNat (ofHexDigits digits)⟩ := by
  unfold ofHex?
  rw [h]
  rfl

/-- A digit of a number, doubled. -/
theorem doubled_toNat (n shift : Nat) : (UInt8.ofNat ((n >>> shift) % 16 * 0x11)).toNat = n / 2 ^ shift % 16 * 17 := by
  rw [UInt8.toNat_ofNat', Nat.shiftRight_eq_div_pow]
  omega

theorem hexValue_lt (h : isHexDigit c = true) : hexValue c < 16 := (hexDigit_hexValue h).1

theorem hexValue_solid : hexValue 'f' = 15 := by decide

/-- Three digits are one for each channel, and the color is solid. -/
theorem ofHex_three {r g b : Char} (h : AreHexDigits [r, g, b]) :
    ofHex? [r, g, b] = some ⟨UInt32.ofNat (ofHexDigits [r, r, g, g, b, b, 'f', 'f'])⟩ := by
  obtain ⟨hr, hg, hb⟩ : isHexDigit r = true ∧ isHexDigit g = true ∧ isHexDigit b = true := by
    simpa [AreHexDigits] using h
  have hr := hexValue_lt hr
  have hg := hexValue_lt hg
  have hb := hexValue_lt hb
  refine congrArg some (eq_ofNat ?_)
  rw [ofChannels_toNat, doubled_toNat, doubled_toNat, doubled_toNat, show (0xFF : UInt8).toNat = 255 by decide]
  simp only [ofHexDigits, List.foldl, hexValue_solid]
  omega

/-- Four digits are one for each channel. -/
theorem ofHex_four {r g b a : Char} (h : AreHexDigits [r, g, b, a]) :
    ofHex? [r, g, b, a] = some ⟨UInt32.ofNat (ofHexDigits [r, r, g, g, b, b, a, a])⟩ := by
  obtain ⟨hr, hg, hb, ha⟩ :
      isHexDigit r = true ∧ isHexDigit g = true ∧ isHexDigit b = true ∧ isHexDigit a = true := by
    simpa [AreHexDigits] using h
  have hr := hexValue_lt hr
  have hg := hexValue_lt hg
  have hb := hexValue_lt hb
  have ha := hexValue_lt ha
  refine congrArg some (eq_ofNat ?_)
  rw [ofChannels_toNat, doubled_toNat, doubled_toNat, doubled_toNat, doubled_toNat]
  simp only [ofHexDigits, List.foldl]
  omega

/-- Six digits are two for each channel, and the color is solid. -/
theorem ofHex_six (h : AreHexDigits digits) (hlength : digits.length = 6) :
    ofHex? digits = some ⟨UInt32.ofNat (ofHexDigits (digits ++ ['f'] ++ ['f']))⟩ := by
  have hlt := (hexDigits_ofHexDigits h).1
  rw [hlength] at hlt
  unfold ofHex?
  rw [hlength]
  refine congrArg some (eq_ofNat ?_)
  rw [solid_toNat hlt, ofHexDigits_append, ofHexDigits_append, hexValue_solid]
  omega

/-- The eight digits are digits of the color, or make it solid. -/
theorem fullDigits_digits (hdigits : AreHexDigits digits) (hfull : fullDigits? digits = some full) :
    full.length = 8 ∧ AreHexDigits full := by
  have hsolid : isHexDigit 'f' = true := by decide
  unfold fullDigits? at hfull
  unfold AreHexDigits at hdigits ⊢
  split at hfull <;> cases hfull <;> simp_all

/-- A short form is read as the form of eight digits is. -/
theorem ofHex_full (hdigits : AreHexDigits digits) (hfull : fullDigits? digits = some full) :
    ofHex? digits = some ⟨UInt32.ofNat (ofHexDigits full)⟩ := by
  unfold fullDigits? at hfull
  split at hfull <;> cases hfull
  · exact ofHex_three hdigits
  · exact ofHex_four hdigits
  · exact ofHex_six hdigits rfl
  · exact ofHex_eight rfl

/-- The text of the color of eight digits has these digits. -/
theorem text_ofHexDigits (hdigits : AreHexDigits full) (hlength : full.length = 8) :
    (⟨UInt32.ofNat (ofHexDigits full)⟩ : Color).text.toList = '#' :: full.map Char.toLower := by
  obtain ⟨hlt, hagain⟩ := hexDigits_ofHexDigits hdigits
  rw [hlength] at hlt hagain
  unfold text
  rw [String.toList_ofList, UInt32.toNat_ofNat', Nat.mod_eq_of_lt (show _ < 2 ^ 32 by omega), hagain]

/-- The digits of the text of a color, in either case, are read as the color. -/
theorem ofHex_written (h : letters.map Char.toLower = hexDigits 8 color.rgba.toNat) :
    AreHexDigits letters ∧ ofHex? letters = some color := by
  obtain ⟨hdigits, hlength, hnumber⟩ := ofHexDigits_written h (show _ < 2 ^ 32 from color.rgba.toNat_lt)
  refine ⟨hdigits, ?_⟩
  rw [ofHex_eight hlength, hnumber]
  exact congrArg some (eq_ofNat rfl).symm

/-! ## Texts -/

theorem skipBlank_eq_nil : skipBlank rest = [] ↔ IsBlanks rest := List.dropWhile_eq_nil_iff

/-- A text is taken apart behind its number sign. -/
theorem read_mark (hbefore : IsBlanks before) (hdigits : AreHexDigits digits)
    (hrest : Starts (isHexDigit · = false) rest) :
    read (String.ofList (before ++ '#' :: (digits ++ rest)))
      = if digits ≠ [] ∧ skipBlank rest = [] then (Term.hex digits).resolve
        else .error (.malformed (String.ofList (before ++ '#' :: (digits ++ rest)))) := by
  have hmark : Starts (isBlank · = false) ('#' :: (digits ++ rest)) := starts_cons.mpr (by decide)
  unfold read
  rw [String.toList_ofList, show skipBlank (before ++ '#' :: (digits ++ rest)) = _ from dropWhile_run hbefore hmark]
  simp only [Reading.term?, takeWhile_run hdigits hrest, dropWhile_run hdigits hrest, List.isEmpty_iff]
  by_cases hnone : digits = []
  · simp only [hnone, if_true, ne_eq, not_true_eq_false, false_and, if_false]
  · simp only [hnone, if_false, ne_eq, not_false_eq_true, true_and]

theorem resolve_hex (h : ofHex? digits = some color) : (Term.hex digits).resolve = .ok color := by
  rw [Term.resolve, h]

/-- Digits alone behind the number sign are all there is to read. -/
theorem read_digits (hdigits : AreHexDigits digits) (hsome : digits ≠ []) :
    read (String.ofList ('#' :: digits)) = (Term.hex digits).resolve := by
  have hnone : IsBlanks [] := nofun
  have hend : Starts (isHexDigit · = false) [] := nofun
  have hread := read_mark hnone hdigits hend
  rwa [List.nil_append, List.append_nil, if_pos ⟨hsome, rfl⟩] at hread

theorem toLower_eq_mark (h : c.toLower = '#') : c = '#' := by
  have hlt : c.toNat < 36 := Nat.lt_of_le_of_lt (toNat_le_toLower c) (h ▸ by decide)
  exact char_of_codes (p := fun c => c.toLower = '#' → c = '#') (by decide +kernel) hlt h

/-- No blank is a digit. -/
theorem starts_of_blanks (h : IsBlanks after) : Starts (isHexDigit · = false) after := by
  intro d hd
  have hblank := h d (List.mem_of_mem_head? hd)
  simp only [isBlank, Bool.or_eq_true, beq_iff_eq] at hblank
  rcases hblank with ((rfl | rfl) | rfl) | rfl <;> rfl

/-- The text of a color is read back. -/
theorem read_written (hbefore : IsBlanks before) (hafter : IsBlanks after)
    (h : letters.map Char.toLower = color.text.toList) :
    read (String.ofList (before ++ letters ++ after)) = .ok color := by
  rw [text, String.toList_ofList] at h
  obtain ⟨mark, letters, rfl, hmark, hletters⟩ := List.map_eq_cons_iff.mp h
  obtain rfl := toLower_eq_mark hmark
  obtain ⟨hdigits, hcolor⟩ := ofHex_written hletters
  have hsome : letters ≠ [] := by
    rintro rfl
    cases hcolor
  rw [List.append_assoc, List.cons_append, read_mark hbefore hdigits (starts_of_blanks hafter),
    if_pos ⟨hsome, skipBlank_eq_nil.mpr hafter⟩, resolve_hex hcolor]

theorem read_text (color : Color) : read color.text = .ok color := by
  have hsame : color.text.toList.map Char.toLower = color.text.toList := by
    rw [text, String.toList_ofList, List.map_cons, map_toLower_hexDigits]
    rfl
  have hnone : IsBlanks [] := nofun
  have hread := read_written hnone hnone hsame
  rwa [List.nil_append, List.append_nil, String.ofList_toList] at hread

/-- What a number sign starts is no color but that of the digits behind it. -/
theorem digits_of_read (h : read (String.ofList ('#' :: rest)) = .ok color) : ∃ digits after full,
    rest = digits ++ after ∧ AreHexDigits digits ∧ IsBlanks after ∧ fullDigits? digits = some full ∧
      color.text.toList = '#' :: full.map Char.toLower := by
  have hdigits : AreHexDigits (rest.takeWhile isHexDigit) := fun d hd => List.mem_takeWhile_imp hd
  have hafter : Starts (isHexDigit · = false) (rest.dropWhile isHexDigit) := by
    intro d hd
    have hnot := List.head?_dropWhile_not isHexDigit rest
    rwa [show (rest.dropWhile isHexDigit).head? = some d from hd] at hnot
  have hsplit : rest = rest.takeWhile isHexDigit ++ rest.dropWhile isHexDigit :=
    List.takeWhile_append_dropWhile.symm
  generalize rest.takeWhile isHexDigit = digits, rest.dropWhile isHexDigit = after at *
  subst hsplit
  have hnone : IsBlanks [] := nofun
  have hread := read_mark hnone hdigits hafter
  rw [List.nil_append, h] at hread
  split at hread
  · next hwhole =>
    have hright : digits.length ∈ [3, 4, 6, 8] := by
      by_contra hwrong
      rw [Term.resolve, ofHex_none hwrong] at hread
      cases hread
    obtain ⟨full, hfull⟩ := fullDigits_some hright
    obtain ⟨hlength, hfulls⟩ := fullDigits_digits hdigits hfull
    obtain rfl := Except.ok.inj (hread.trans (resolve_hex (ofHex_full hdigits hfull)))
    exact ⟨digits, after, full, rfl, hdigits, skipBlank_eq_nil.mp hwhole.2, hfull, text_ofHexDigits hfulls hlength⟩
  · cases hread

/-- **Hexadecimal digits are read exactly.**  The text of a color is read back, in either case and between
blanks, as it is from the JSON form; a short form is read as the form of eight digits that it stands for; any
other number of digits is refused; and what a number sign starts is read as no other color. -/
theorem read_hexadecimal :
    (∀ (color : Color) (before letters after : List Char), IsBlanks before → IsBlanks after →
      letters.map Char.toLower = color.text.toList →
      read (String.ofList (before ++ letters ++ after)) = .ok color) ∧
    (∀ (store : Store) (color : Color), ∃ written, (Value.color color).serialize store = .text written ∧
      (Value.text written).toColor = color) ∧
    (∀ digits full, AreHexDigits digits → fullDigits? digits = some full →
      read (String.ofList ('#' :: digits)) = read (String.ofList ('#' :: full))) ∧
    (∀ digits, AreHexDigits digits → digits ≠ [] → digits.length ∉ [3, 4, 6, 8] →
      read (String.ofList ('#' :: digits)) = .error .invalidHex) ∧
    ∀ rest color, read (String.ofList ('#' :: rest)) = .ok color → ∃ digits after full,
      rest = digits ++ after ∧ AreHexDigits digits ∧ IsBlanks after ∧ fullDigits? digits = some full ∧
        color.text.toList = '#' :: full.map Char.toLower := by
  refine ⟨fun color before letters after => read_written, fun store color => ?_, fun digits full hdigits hfull => ?_,
    fun digits hdigits hsome hwrong => ?_, fun rest color => digits_of_read⟩
  · refine ⟨color.text, rfl, ?_⟩
    rw [Value.toColor, read_text]
  · obtain ⟨hlength, hfulls⟩ := fullDigits_digits hdigits hfull
    have hsome : digits ≠ [] := by
      rintro rfl
      cases hfull
    rw [read_digits hdigits hsome, read_digits hfulls (List.ne_nil_of_length_pos (hlength ▸ by decide)),
      resolve_hex (ofHex_full hdigits hfull), resolve_hex (ofHex_eight hlength)]
  · rw [read_digits hdigits hsome, Term.resolve, ofHex_none hwrong]

/-- Capitals between blanks, a form of three digits, too many digits, and a form with a blank behind it. -/
theorem read_hexadecimal_forms : read "\t#0080fF80\n" = .ok ⟨0x0080FF80⟩ ∧ read "#08F" = read "#0088FFff" ∧
    read "#000000080" = .error .invalidHex ∧ ∃ digits after full, ['0', '8', 'F', ' '] = digits ++ after ∧
      AreHexDigits digits ∧ IsBlanks after ∧ fullDigits? digits = some full ∧
        (⟨0x0088FFFF⟩ : Color).text.toList = '#' :: full.map Char.toLower := by
  obtain ⟨hwritten, -, hshort, hwrong, hother⟩ := read_hexadecimal
  have htab : IsBlanks ['\t'] := List.forall_mem_singleton.mpr rfl
  have hline : IsBlanks ['\n'] := List.forall_mem_singleton.mpr rfl
  have hthree : AreHexDigits ['0', '8', 'F'] := List.all_eq_true.mp rfl
  have hnine : AreHexDigits ['0', '0', '0', '0', '0', '0', '0', '8', '0'] := List.all_eq_true.mp rfl
  exact ⟨hwritten _ ['\t'] ['#', '0', '0', '8', '0', 'f', 'F', '8', '0'] ['\n'] htab hline rfl,
    hshort _ _ hthree rfl, hwrong _ hnine (List.cons_ne_nil _ _) (by decide), hother ['0', '8', 'F', ' '] _ rfl⟩

end LiveTemplate.Color
