import LiveTemplate.Number.Exact
/-!
# JSON documents

A document is a tree.  Numbers keep whether they were written as integers, because the text of
a document shows the difference; an object keeps its fields sorted by name, each name once.

Paths into a document are written as text: a `/` before each step, where a step names a field
or counts to an element.  In a step `~1` stands for `/` and `~0` for `~`, so every field name
has a written form.  An element is counted in decimal without a sign or leading zeros.
-/

set_option autoImplicit false

namespace LiveTemplate

/-- A JSON document. -/
inductive Json where
  | null
  | bool (value : Bool)
  | int (value : Int)
  | float (value : Float)
  | text (value : String)
  | array (items : List Json)
  | object (fields : List (String × Json))

instance : Inhabited Json := ⟨.null⟩

namespace Json

/-- Look a name up in an association list. -/
def lookup? {α : Type} (key : String) : List (String × α) → Option α
  | [] => none
  | (name, value) :: rest => if name == key then some value else lookup? key rest

/-- Put a field into a list sorted by name, replacing a field of that name. -/
def insertField {α : Type} (key : String) (value : α) : List (String × α) → List (String × α)
  | [] => [(key, value)]
  | (name, old) :: rest =>
    if name == key then (key, value) :: rest
    else if key < name then (key, value) :: (name, old) :: rest
    else (name, old) :: insertField key value rest

/-- Sort fields by name.  Of several fields with one name the last counts. -/
def sortFields {α : Type} (fields : List (String × α)) : List (String × α) :=
  fields.foldl (fun sorted field => insertField field.1 field.2 sorted) []

/-- An object from fields in any order. -/
def ofFields (fields : List (String × Json)) : Json := .object (sortFields fields)

/-- Is this an array or an object? -/
def isContainer : Json → Bool
  | .array _ => true
  | .object _ => true
  | _ => false

/-- The number that a document stands for as a double; a large integer is rounded. -/
def toFloat : Json → Float
  | .int n => Number.ofInt n
  | .float x => x
  | _ => Number.nan

end Json

namespace Pointer

/-- The written form of a step: `~` becomes `~0` and `/` becomes `~1`. -/
def escape : List Char → List Char
  | [] => []
  | '~' :: rest => '~' :: '0' :: escape rest
  | '/' :: rest => '~' :: '1' :: escape rest
  | c :: rest => c :: escape rest

/-- The step that a written form stands for. -/
def unescape : List Char → List Char
  | [] => []
  | '~' :: '0' :: rest => '~' :: unescape rest
  | '~' :: '1' :: rest => '/' :: unescape rest
  | c :: rest => c :: unescape rest

/-- The path one step further. -/
def extend (path : List Char) (step : List Char) : List Char := path ++ '/' :: escape step

/-- The written steps of a path that starts with `/`, cut at each further `/`. -/
def splitSteps : List Char → List (List Char)
  | [] => [[]]
  | '/' :: rest => [] :: splitSteps rest
  | c :: rest =>
    match splitSteps rest with
    | [] => [[c]]
    | step :: steps => (c :: step) :: steps

/-- The steps of a path.  The empty path has none; any other starts with `/`. -/
def steps? : List Char → Option (List (List Char))
  | [] => some []
  | '/' :: rest => some ((splitSteps rest).map unescape)
  | _ => none

/-- The position that a step counts to: decimal, no sign, no leading zero. -/
def index? (step : List Char) : Option Nat :=
  match step with
  | [] => none
  | ['0'] => some 0
  | '0' :: _ => none
  | digits =>
    if digits.all fun c => '0' ≤ c && c ≤ '9' then
      some (digits.foldl (fun n c => n * 10 + (c.toNat - '0'.toNat)) 0)
    else none

/-- One step down. -/
def child? (step : List Char) : Json → Option Json
  | .object fields => Json.lookup? (String.ofList step) fields
  | .array items => index? step >>= fun i => items[i]?
  | _ => none

/-- Follow steps down a document. -/
def follow? : List (List Char) → Json → Option Json
  | [], node => some node
  | step :: rest, node => child? step node >>= follow? rest

/-- The node that a path leads to. -/
def resolve? (path : List Char) (document : Json) : Option Json :=
  steps? path >>= fun steps => follow? steps document

end Pointer

end LiveTemplate
