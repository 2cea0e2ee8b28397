import LiveTemplate.Number.Exact
/-!
# The fewest digits that read back

A positive double stands for an interval: the reals that round to it.  Among the decimals of
that interval this file selects one with the fewest digits, and of several such the one
nearest to the double itself.

The search is the specification turned into a loop.  For one digit, two digits, … seventeen
digits it looks at the two decimals of that length around the double and keeps those inside
the interval; the first length with a hit wins.  All comparisons are exact, by
cross-multiplying naturals.  The ends of the interval belong to it exactly when the
significand is even, and below a power of two the lower half of the interval is half as long.
-/

set_option autoImplicit false

namespace LiveTemplate

/-- The decimal `digits · 10 ^ exponent`. -/
structure Decimal where
  digits : Nat
  exponent : Int
deriving Repr, DecidableEq

namespace Decimal

/-- What to do with a decimal that lies exactly between two others. -/
inductive Tie where
  /-- Take the neighbour whose last digit is even. -/
  | toEven
  /-- Take the greater neighbour. -/
  | upward
deriving Repr, DecidableEq

/-- Compare `a · 10 ^ i` with `n · 2 ^ j`, exactly. -/
def compareBinary (a : Nat) (i : Int) (n : Nat) (j : Int) : Ordering :=
  compare (a * pow10 i.toNat * pow2 (-j).toNat) (n * pow2 j.toNat * pow10 (-i).toNat)

/-- Does the decimal lie among the reals that round to `significand · 2 ^ exponent`?  The gap
to the double below is half as wide when the significand is the least of its binade. -/
def readsBack (significand : Nat) (exponent : Int) (d : Decimal) : Bool :=
  let narrow := significand == pow2 52 && exponent > -1074
  let low := if narrow then 4 * significand - 1 else 4 * significand - 2
  let high := 4 * significand + 2
  let closed := significand % 2 == 0
  let below := compareBinary d.digits d.exponent low (exponent - 2)
  let above := compareBinary d.digits d.exponent high (exponent - 2)
  (below == .gt || (closed && below == .eq)) && (above == .lt || (closed && above == .eq))

/-- The least `k` with `significand · 2 ^ exponent < 10 ^ k`, for a positive significand: an
estimate from the binary logarithm that is never too large, then corrected upwards. -/
def scale (significand : Nat) (exponent : Int) : Int :=
  let binary : Int := (significand.log2 : Int) + exponent
  let estimate : Int := (binary * 1233) / 4096 - 1
  let rec raise : Nat → Int → Int
    | 0, k => k
    | fuel + 1, k =>
      if compareBinary 1 k significand exponent == .gt then k else raise fuel (k + 1)
  raise 8 estimate

/-- The quotient of `significand · 2 ^ exponent` by `10 ^ place`, rounded down. -/
def quotientAt (significand : Nat) (exponent place : Int) : Nat :=
  (significand * pow2 exponent.toNat * pow10 (-place).toNat) /
    (pow2 (-exponent).toNat * pow10 place.toNat)

/-- The hit with this many digits, if there is one. -/
def ofLength? (tie : Tie) (significand : Nat) (exponent : Int) (k : Int) (length : Nat) :
    Option Decimal :=
  let place := k - length
  let lower : Decimal := ⟨quotientAt significand exponent place, place⟩
  let upper : Decimal := ⟨lower.digits + 1, place⟩
  match readsBack significand exponent lower, readsBack significand exponent upper with
  | false, false => none
  | true, false => some lower
  | false, true => some upper
  | true, true =>
    match compareBinary (lower.digits + upper.digits) place (2 * significand) exponent, tie with
    | .gt, _ => some lower
    | .lt, _ => some upper
    | .eq, .upward => some upper
    | .eq, .toEven => if lower.digits % 2 == 0 then some lower else some upper

/-- Move trailing zeros of the digits into the exponent. -/
def strip (d : Decimal) : Decimal :=
  go d.digits d
where
  /-- At most `fuel` zeros are moved; a number has fewer digits than its value. -/
  go : Nat → Decimal → Decimal
    | 0, d => d
    | fuel + 1, d =>
      if d.digits ≠ 0 ∧ d.digits % 10 = 0 then go fuel ⟨d.digits / 10, d.exponent + 1⟩ else d

/-- The shortest decimal that reads back to `significand · 2 ^ exponent`, nearest first.
Seventeen digits always suffice; were they not to, the exact value is the answer. -/
def shortest (tie : Tie) (significand : Nat) (exponent : Int) : Decimal :=
  if significand == 0 then ⟨0, 0⟩
  else
    let k := scale significand exponent
    match (List.range 17).findSome? fun n => ofLength? tie significand exponent k (n + 1) with
    | some d => strip ⟨d.digits, d.exponent⟩
    | none =>
      strip ⟨significand * pow2 exponent.toNat * Nat.pow 5 (-exponent).toNat, min exponent 0⟩

/-- The digits of the decimal, most significant first. -/
def digitText (d : Decimal) : List Char := Nat.toDigits 10 d.digits

end Decimal

end LiveTemplate
