import LiveTemplate.Value.Access
/-!
# Views that remember

A view makes the view of a child when it is first asked for it and remembers it, so that asking
again gives the same one, with all that this one remembers.  Here the views of one document stand in
a list, each known by its place, and what they remember is spelled out.

Everywhere else a view is a document and a path.  That tells as much: a view answers from the
document and from nothing else, and the path says which of the views it is.
-/

set_option autoImplicit false

namespace LiveTemplate

/-- One step down a container. -/
inductive Selector where
  | key (name : String)
  | index (position : Nat)
deriving Repr, DecidableEq

namespace Selector

/-- The step as it is written into a path. -/
def step : Selector → List Char
  | .key name => name.toList
  | .index i => (toString i).toList

/-- The child of a place in a document.  Only objects have keys, and only arrays have positions. -/
def child? : Selector → Json → Option Json
  | .key name, .object fields => Json.lookup? name fields
  | .index i, .array items => items[i]?
  | _, _ => none

end Selector

namespace Value

/-- One step down a value, null where there is nothing. -/
def access (store : Store) : Selector → Value → Value
  | .key name, v => v.field store name
  | .index i, v => v.item store i

/-- Step after step down a value. -/
def follow (store : Store) (path : List Selector) (v : Value) : Value :=
  path.foldl (fun v a => v.access store a) v

end Value

/-- What is handed out for a child: a scalar, or a view by its place in the list. -/
inductive Handed where
  | scalar (value : Value)
  | view (kind : Kind) (place : Nat)

/-- A view: where it is, and what it has handed out for its fields and elements. -/
structure View where
  path : List Char
  fields : List (String × Handed)
  elements : List (Option Handed)

/-- The views of a document, in the order in which they were made. -/
structure Views where
  document : Json
  made : List View

/-- The kind of what was handed out. -/
def Handed.kind : Handed → Kind
  | .scalar value => value.kind
  | .view kind _ => kind

namespace View

/-- What was handed out for a child before. -/
def remembered? (view : View) : Selector → Option Handed
  | .key name => Json.lookup? name view.fields
  | .index i => view.elements[i]?.join

/-- Put an element into a list that is filled up with gaps as far as needed. -/
def place (i : Nat) (handed : Handed) (elements : List (Option Handed)) : List (Option Handed) :=
  (elements ++ List.replicate (i + 1 - elements.length) none).set i (some handed)

/-- Remember what is handed out for a child. -/
def remember (handed : Handed) : Selector → View → View
  | .key name, view => { view with fields := (name, handed) :: view.fields }
  | .index i, view => { view with elements := place i handed view.elements }

end View

namespace Views

/-- Add a view that remembers nothing yet. -/
def add (views : Views) (path : List Char) : Views :=
  { views with made := views.made ++ [⟨path, [], []⟩] }

/-- Make what is handed out for a place in the document: a view if there is a container. -/
def make (views : Views) (path : List Char) : Json → Handed × Views
  | .array _ => (.view .array views.made.length, views.add path)
  | .object _ => (.view .map views.made.length, views.add path)
  | scalar => (.scalar (Value.ofJson 0 views.document path scalar), views)

/-- The first view of a document, at its root; for a scalar there is none. -/
def start (document : Json) : Handed × Views := make ⟨document, []⟩ [] document

/-- Have a view remember what is handed out for a child. -/
def remember (views : Views) (place : Nat) (handed : Handed) (access : Selector) : Views :=
  { views with made := views.made.modify place (View.remember handed access) }

/-- Make what is handed out for a child, and have the view remember it. -/
def first (views : Views) (place : Nat) (view : View) (access : Selector) (node : Json) :
    Handed × Views :=
  let (handed, views) := views.make (Pointer.extend view.path access.step) node
  (handed, views.remember place handed access)

/-- The field of a view.  What is remembered is not looked up again. -/
def field (views : Views) (place : Nat) (name : String) : Handed × Views :=
  match views.made[place]? with
  | none => (.scalar .null, views)
  | some view =>
    match view.remembered? (.key name) with
    | some handed => (handed, views)
    | none =>
      match (Selector.key name).child? (Value.shown views.document view.path) with
      | none => (.scalar .null, views)
      | some node => views.first place view (.key name) node

/-- The element of a view.  The document is asked first whether there is one. -/
def item (views : Views) (place : Nat) (i : Nat) : Handed × Views :=
  match views.made[place]? with
  | none => (.scalar .null, views)
  | some view =>
    match (Selector.index i).child? (Value.shown views.document view.path) with
    | none => (.scalar .null, views)
    | some node =>
      match view.remembered? (.index i) with
      | some handed => (handed, views)
      | none => views.first place view (.index i) node

/-- One step down what was handed out. -/
def access (views : Views) : Handed → Selector → Handed × Views
  | .scalar _, _ => (.scalar .null, views)
  | .view _ place, .key name => views.field place name
  | .view _ place, .index i => views.item place i

/-- Step after step down what was handed out. -/
def follow (views : Views) (handed : Handed) : List Selector → Handed × Views
  | [] => (handed, views)
  | a :: rest =>
    let (next, views) := views.access handed a
    views.follow next rest

/-- What any number of accesses leave behind, of whatever was handed out. -/
def after (views : Views) (accesses : List (Handed × Selector)) : Views :=
  accesses.foldl (fun views made => (views.access made.1 made.2).2) views

/-- What was handed out as a value. -/
def value (views : Views) (ref : Ref) : Handed → Value
  | .scalar value => value
  | .view _ place =>
    match views.made[place]? with
    | some view => .view ref views.document view.path
    | none => .null

end Views

end LiveTemplate
