import LiveTemplate.Number.Notation
/-!
# Easing curves

An easing curve maps the progress of time to the progress of a change.  Both start at zero and
end at one, and outside the unit interval the curve stays at its ends.  Between them it is a
straight line, or a cubic curve with two free control points, whose parameter for a given time
is found by halving the unit interval sixty-four times.
-/

set_option autoImplicit false

namespace LiveTemplate

/-- An easing curve. -/
inductive Easing where
  | linear
  | cubic (x1 y1 x2 y2 : Float)
deriving Repr, DecidableEq

namespace Easing

/-- One coordinate of the cubic curve with end points zero and one. -/
def coordinate (p1 p2 s : Float) : Float :=
  let rest := 1.0 - s
  3.0 * rest * rest * s * p1 + 3.0 * rest * s * s * p2 + s * s * s

/-- Halve the interval a number of times, keeping the part where the curve reaches `x`; the
result is the middle of the last interval. -/
def bisect (x1 x2 x : Float) : Nat → Float → Float → Float
  | 0, low, high => (low + high) / 2.0
  | steps + 1, low, high =>
    let middle := (low + high) / 2.0
    if coordinate x1 x2 middle < x then bisect x1 x2 x steps middle high
    else bisect x1 x2 x steps low middle

/-- The progress of the change at a time. -/
def progress (curve : Easing) (t : Float) : Float :=
  if t ≤ 0.0 then 0.0
  else if t ≥ 1.0 then 1.0
  else match curve with
    | .linear => t
    | .cubic x1 y1 x2 y2 => coordinate y1 y2 (bisect x1 x2 t 64 0.0 1.0)

/-- The description of a curve. -/
def described : Easing → String
  | .linear => "Linear"
  | .cubic x1 y1 x2 y2 =>
    let number := Layout.described.text
    "CubicBezier(" ++ number x1 ++ ", " ++ number y1 ++ ", " ++ number x2 ++ ", " ++
      number y2 ++ ")"

end Easing

end LiveTemplate
