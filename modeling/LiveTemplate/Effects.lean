import LiveTemplate.Fault
import LiveTemplate.Value.Basic
/-!
# What evaluation leaves behind

Evaluation reads a store that does not change meanwhile.  What it leaves behind is small: fresh
references have been taken, random numbers have been drawn, and impure functions have been
called.  `Effects` records all three.  The calls are recorded in order, the newest first, so
that a run can be compared with another one call by call.

A computation may end in a fault.  The effects up to there stay.
-/

set_option autoImplicit false

namespace LiveTemplate

/-- A call of an impure function: the identity of the function value, and the function. -/
structure ImpureCall where
  function : Ref
  builtin : Builtin
deriving Repr, DecidableEq

/-- What evaluation leaves behind. -/
structure Effects where
  /-- The next reference that belongs to nobody. -/
  next : Ref
  /-- The state of the random numbers, not zero. -/
  seed : UInt64
  /-- The calls of impure functions, the newest first. -/
  calls : List ImpureCall
deriving Repr

/-- A computation with effects that may end in a fault. -/
abbrev Run := ExceptT Fault (StateM Effects)

/-- What a computation ends in: its result, and the effects by then. -/
abbrev Outcome (α : Type) := Except Fault α × Effects

namespace Effects

/-- Nothing has happened yet. -/
def initial (seed : UInt64) : Effects := ⟨Value.firstFreeRef, seed ||| 1, []⟩

/-- The calls of a function so far. -/
def count (effects : Effects) (builtin : Builtin) : Nat :=
  effects.calls.countP fun call => call.builtin == builtin

/-- The next state of the random numbers: three shifts, each mixed in by exclusive or. -/
def step (seed : UInt64) : UInt64 :=
  let x := seed ^^^ (seed <<< 13)
  let x := x ^^^ (x >>> 7)
  x ^^^ (x <<< 17)

/-- The number from zero up to, not including, one that a state stands for: its upper
fifty-three bits as a fraction. -/
def fraction (seed : UInt64) : Float :=
  Number.ofInt (seed >>> 11).toNat / Number.ofInt (pow2 53)

end Effects

namespace Run

/-- Take a fresh reference. -/
def fresh : Run Ref := modifyGet fun effects => (effects.next, { effects with next := effects.next + 1 })

/-- Record the call of an impure function. -/
def record (function : Ref) (builtin : Builtin) : Run Unit :=
  modify fun effects => { effects with calls := ⟨function, builtin⟩ :: effects.calls }

/-- Draw a random number. -/
def draw : Run Float :=
  modifyGet fun effects =>
    let seed := Effects.step effects.seed
    (Effects.fraction seed, { effects with seed := seed })

/-- A fresh array. -/
def array (items : List Value) : Run Value := do return .array (← fresh) items

/-- A fresh map of entries that are sorted by key. -/
def map (entries : List (String × Value)) : Run Value := do return .map (← fresh) entries

/-- The fault of a computation as the fault of a run. -/
def ofExcept {α : Type} : Except Fault α → Run α
  | .ok a => pure a
  | .error fault => throw fault

end Run

end LiveTemplate
