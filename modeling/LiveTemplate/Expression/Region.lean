import LiveTemplate.Effects
/-!
# Regions of an expression

An expression is put together while it is read.  Operands and operators wait in a *region*: a
quoted text, a group, an index, a list of arguments, or the whole template.  When everything at
one rank has been read, the operators of that rank are folded with their operands, and when a
region is closed all that is left in it becomes one operand of the region around it.

* `foldLeft` folds the newest run of operators of a rank from the left;
* `foldUnary` folds the newest operators of a rank, each with one operand, the nearest first;
* `foldNewest` folds one operator with two operands, and `foldRight` does so until the newest
  operator has another rank, which makes a run associate to the right;
* `foldChoice` folds the two markers of a choice with three operands.

What it means to put an operator on operands is left open: a `Builder` says it.  A fold that
finds too little to fold is a fault.
-/

set_option autoImplicit false

namespace LiveTemplate

/-- How to put an operator on its operands, and what an empty text is. -/
structure Builder (α : Type) where
  build : Operator → List α → Run α
  blank : α

/-- What the content of a closed region becomes. -/
inductive Combine where
  /-- One operand as it is, several merged into a text. -/
  | text
  /-- An array of all operands. -/
  | list
  /-- The one operand that there must be. -/
  | single
deriving Repr, DecidableEq

/-- Operands and operators that wait, the newest first. -/
structure Region (α : Type) where
  operands : List α
  operators : List Operator
deriving Repr

namespace Region

variable {α : Type}

/-- A region in which nothing waits. -/
def empty : Region α := ⟨[], []⟩

/-- Add an operand. -/
def push (region : Region α) (operand : α) : Region α :=
  { region with operands := operand :: region.operands }

/-- Add an operator. -/
def pushOperator (region : Region α) (op : Operator) : Region α :=
  { region with operators := op :: region.operators }

/-- Fold operators from the left, each with the result so far and the next operand. -/
def foldChain (builder : Builder α) (left : α) : List Operator → List α → Run α
  | op :: ops, right :: rest => do
    foldChain builder (← builder.build op [left, right]) ops rest
  | _, _ => pure left

/-- Fold the newest run of operators of a rank from the left. -/
def foldLeft (builder : Builder α) (rank : Rank) (region : Region α) : Run (Region α) := do
  let run := region.operators.takeWhile fun op => op.rank == rank
  if run.isEmpty then return region
  match region.operands.drop run.length with
  | left :: older =>
    let right := (region.operands.take run.length).reverse
    let folded ← foldChain builder left run.reverse right
    return ⟨folded :: older, region.operators.drop run.length⟩
  | [] => throw (.missingOperands run.length rank region.operands.length)

/-- Put a run of unary operators on an operand, the first of the run being the nearest. -/
def foldUnaryRun (builder : Builder α) : List Operator → List α → Run (List α)
  | [], operands => pure operands
  | op :: ops, operand :: older => do
    foldUnaryRun builder ops ((← builder.build op [operand]) :: older)
  | _ :: _, [] => throw .missingOperand

/-- Fold the newest operators of a rank, each with one operand. -/
def foldUnary (builder : Builder α) (rank : Rank) (region : Region α) : Run (Region α) := do
  let run := region.operators.takeWhile fun op => op.rank == rank
  return ⟨← foldUnaryRun builder run region.operands, region.operators.drop run.length⟩

/-- Put an operator on the two newest operands. -/
def foldPair (builder : Builder α) (op : Operator) : List α → Run (List α)
  | right :: left :: older => do return (← builder.build op [left, right]) :: older
  | _ => throw .missingOperand

/-- Fold the newest operator if it has the rank, and tell whether it had. -/
def foldNewest (builder : Builder α) (rank : Rank) (region : Region α) :
    Run (Region α × Bool) := do
  match region.operators with
  | op :: older =>
    if op.rank == rank then return (⟨← foldPair builder op region.operands, older⟩, true)
    else return (region, false)
  | [] => return (region, false)

/-- Fold a run of operators, each with the two newest operands. -/
def foldRightRun (builder : Builder α) : List Operator → List α → Run (List α)
  | [], operands => pure operands
  | op :: ops, operands => do foldRightRun builder ops (← foldPair builder op operands)

/-- Fold the newest operators of a rank until one of another rank is the newest. -/
def foldRight (builder : Builder α) (rank : Rank) (region : Region α) : Run (Region α) := do
  let run := region.operators.takeWhile fun op => op.rank == rank
  return ⟨← foldRightRun builder run region.operands, region.operators.drop run.length⟩

/-- Fold the two markers of a choice, which must be the newest operators, with the condition and
the branches. -/
def foldChoice (builder : Builder α) (rank : Rank) (region : Region α) : Run (Region α) := do
  match region.operators with
  | second :: first :: older =>
    if second.rank == rank && first.rank == rank then
      match region.operands with
      | whenFalse :: whenTrue :: condition :: rest =>
        return ⟨(← builder.build .choose [condition, whenTrue, whenFalse]) :: rest, older⟩
      | _ => throw .missingOperand
    else throw .missingMarkers
  | _ => throw .missingMarkers

/-- Make one operand of a whole region. -/
def combine (builder : Builder α) (mode : Combine) (region : Region α) : Run α := do
  if !region.operators.isEmpty then throw (.unreducedOperators region.operators.length)
  match mode with
  | .text => match region.operands with
    | [] => return builder.blank
    | [operand] => return operand
    | operands => builder.build .merge operands.reverse
  | .list => builder.build .array region.operands.reverse
  | .single => match region.operands with
    | [operand] => return operand
    | operands => throw (.notSingle operands.length)

end Region

/-- The regions that are open, the innermost apart from those around it. -/
structure Regions (α : Type) where
  current : Region α
  /-- The regions around the current one, the nearest first. -/
  outer : List (Region α)
deriving Repr

namespace Regions

variable {α : Type}

/-- One region with nothing in it. -/
def empty : Regions α := ⟨Region.empty, []⟩

/-- The number of open regions. -/
def depth (regions : Regions α) : Nat := regions.outer.length + 1

/-- Enter a region inside the current one. -/
def enter (regions : Regions α) : Regions α := ⟨Region.empty, regions.current :: regions.outer⟩

/-- Close the current region and make its content an operand of the region around it. -/
def leave (builder : Builder α) (mode : Combine) (regions : Regions α) : Run (Regions α) := do
  match regions.outer with
  | [] => throw .unmatchedClose
  | around :: outer => return ⟨around.push (← regions.current.combine builder mode), outer⟩

/-- The value of the outermost region, when no other is open. -/
def finish (builder : Builder α) (regions : Regions α) : Run α := do
  match regions.outer with
  | [] => regions.current.combine builder .text
  | _ :: _ => throw .unclosedRegions

/-- Change the current region. -/
def inCurrent (regions : Regions α) (change : Region α → Run (Region α)) : Run (Regions α) := do
  return { regions with current := ← change regions.current }

end Regions

/-- A step in putting an expression together. -/
inductive Step (α : Type) where
  | push (operand : α)
  | operator (op : Operator)
  | foldLeft (rank : Rank)
  | foldUnary (rank : Rank)
  | foldNewest (rank : Rank)
  | foldRight (rank : Rank)
  | foldChoice
  | enter
  | leave (mode : Combine)
deriving Repr, DecidableEq

namespace Regions

variable {α : Type}

/-- Take a step. -/
def step (builder : Builder α) (regions : Regions α) : Step α → Run (Regions α)
  | .push operand => regions.inCurrent fun region => pure (region.push operand)
  | .operator op => regions.inCurrent fun region => pure (region.pushOperator op)
  | .foldLeft rank => regions.inCurrent fun region => region.foldLeft builder rank
  | .foldUnary rank => regions.inCurrent fun region => region.foldUnary builder rank
  | .foldNewest rank => regions.inCurrent fun region => do
    return (← region.foldNewest builder rank).1
  | .foldRight rank => regions.inCurrent fun region => region.foldRight builder rank
  | .foldChoice => regions.inCurrent fun region => region.foldChoice builder .choice
  | .enter => pure regions.enter
  | .leave mode => regions.leave builder mode

/-- Take steps one after the other. -/
def run (builder : Builder α) (regions : Regions α) : List (Step α) → Run (Regions α)
  | [] => pure regions
  | s :: rest => do (← regions.step builder s).run builder rest

end Regions

end LiveTemplate
