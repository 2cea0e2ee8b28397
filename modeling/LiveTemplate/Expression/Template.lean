import LiveTemplate.Expression.Evaluation
import LiveTemplate.Grammar.Expression
/-!
# Templates

A template is a text that may hold expressions.  It is read in two phases.  The grammar turns
the text into steps, without asking what any name means.  Then the steps are taken against a
scope: constants are put in place of their names, names that can be written become symbols, and
operators on constant operands are applied at once.

A text that is one expression and nothing else has the value of that expression; all other
templates have texts as their values.  Evaluating a template that is rejected gives its source.

Evaluating *all* of a value means evaluating every text in it as a template, all through arrays
and maps, where the bindings of a scope count as a map.  A scope that can be reached from its own
bindings has no end in this sense.
-/

set_option autoImplicit false

namespace LiveTemplate

/-- What a name stands for along a lineage. -/
def Store.resolveAlong (store : Store) (name : String) : List ScopeId → Run Value
  | [] => pure .null
  | ancestor :: rest =>
    match store.ownBinding? ancestor name with
    | none => store.resolveAlong name rest
    | some binding =>
      match binding.kind with
      | .constant => pure binding.value
      | _ => do return .symbol (← Run.fresh) ancestor name

/-- What a name stands for in an expression: the value of a constant, a symbol at the scope that
owns a name that can be written, and null for a name that nobody binds. -/
def Store.resolve (store : Store) (scope : ScopeId) (name : String) : Run Value :=
  store.resolveAlong name (store.lineage scope)

namespace Template

/-- The value of a numeral. -/
def numeralValue (numeral : List Char) : Float := Numeral.value (String.ofList numeral)

/-- The value of a written operand. -/
def ofLeaf (store : Store) (scope : ScopeId) : Leaf → Run Value
  | .null => pure .null
  | .truth b => pure (.bool b)
  | .text s => pure (.text s)
  | .number numeral => pure (.number (numeralValue numeral))
  | .dimension numeral unit =>
    pure (.ofDimension ((store.viewport scope).resolve (numeralValue numeral) unit))
  | .name name => store.resolve scope name

/-- A step with the value of its operand. -/
def ofStep (store : Store) (scope : ScopeId) : Step Leaf → Run (Step Value)
  | .push leaf => do return .push (← ofLeaf store scope leaf)
  | .operator op => pure (.operator op)
  | .foldLeft rank => pure (.foldLeft rank)
  | .foldUnary rank => pure (.foldUnary rank)
  | .foldNewest rank => pure (.foldNewest rank)
  | .foldRight rank => pure (.foldRight rank)
  | .foldChoice => pure .foldChoice
  | .enter => pure .enter
  | .leave mode => pure (.leave mode)

/-- Steps with the values of their operands. -/
def ofScript (store : Store) (scope : ScopeId) : Grammar.Script → Run (List (Step Value))
  | [] => pure []
  | step :: rest => do
    let step ← ofStep store scope step
    return step :: (← ofScript store scope rest)

/-- How values are put together. -/
def builder (store : Store) : Builder Value := ⟨Operator.build store, .text ""⟩

/-- Read a text with expressions against a scope.  The steps before a mistake are taken all the
same. -/
def parse (store : Store) (scope : ScopeId) (source : String) :
    Run (Except SyntaxError Value) := do
  let (script, mistake) := Grammar.read source.toList
  let steps ← ofScript store scope script
  let regions ← Regions.empty.run (builder store) steps
  match mistake with
  | some (cause, rest) =>
    let offset := source.utf8ByteSize - Position.byteLength rest
    return .error (SyntaxError.atOffset cause source offset)
  | none => return .ok (← regions.finish (builder store))

/-- Does an expression start anywhere in the characters? -/
def hasMarker : List Char → Bool
  | '$' :: '\x7b' :: _ => true
  | _ :: rest => hasMarker rest
  | [] => false

/-- Does an expression start anywhere in the text? -/
def isTemplate (source : String) : Bool := hasMarker source.toList

/-- Read a template.  A text without expressions is itself. -/
def read (store : Store) (scope : ScopeId) (source : String) : Run (Except SyntaxError Value) :=
  if isTemplate source then parse store scope source else pure (.ok (.text source))

/-- The value of a template, or its source if it is rejected. -/
def evaluate (store : Store) (scope : ScopeId) (source : String) : Run Value := do
  match ← read store scope source with
  | .ok value => value.eval store
  | .error _ => pure (.text source)

end Template

namespace Value

/-- What evaluating all of a value opens it into: the elements of an array, or the values of a map. -/
def opened (store : Store) (v : Value) : List Value :=
  v.items store ++ (v.entries store).map fun entry => entry.2

/-- A fresh array or map of other values in the places of the old ones.  Anything else stays. -/
def refilled (store : Store) (v : Value) (values : List Value) : Run Value :=
  if v.kind == .array then Run.array values
  else if v.kind.isMapLike then Run.map ((v.keys store).zip values)
  else pure v

/-- Evaluate all of a value, one part after the other up to the first fault.  Nothing comes of it
if this does not end. -/
def evaluateAll (store : Store) (scope : ScopeId) (v : Value) (e : Effects) :
    Option (Outcome Value) :=
  match v with
  | .text source => some ((Template.evaluate store scope source).run e)
  | v => do
    let (values, e) ← (v.opened store).foldlM (fun (outcome : Outcome (List Value)) part =>
      match outcome with
      | (.ok values, e) => do
        let (value, e) ← part |>.evaluateAll store scope e
        some (value.map (values ++ [·]), e)
      | fault => some fault) (.ok [], e)
    match values with
    | .ok values => some ((v.refilled store values).run e)
    | .error fault => some (.error fault, e)
partial_fixpoint

end Value

end LiveTemplate
