import LiveTemplate.Value.Snapshot
/-!
# Equality of values

Values of different kinds differ.  Scalars are equal when their contents are, where numbers
follow the rules of doubles: not-a-number differs from itself and the two zeros are equal.
Arrays are equal element by element, whatever form of container they have.  A map equals another
one with as many entries if each of its own entries is found there.  Styling values are equal part
by part.  All other values are equal only to themselves.

A container that is left in an expanded value holds itself, and its comparison would have no end;
it equals nothing.
-/

set_option autoImplicit false

namespace LiveTemplate.Value

/-- The elements of an expanded array.  Something opaque shows none. -/
def fixedItems? : Value → Option (List Value)
  | .array _ items => some items
  | .handle _ .array _ => some []
  | _ => none

/-- The entries of an expanded map.  Something opaque shows none. -/
def fixedEntries? : Value → Option (List (String × Value))
  | .map _ entries => some entries
  | .handle _ .map _ => some []
  | _ => none

/-- Are these one value? -/
def isIdentical (a b : Value) : Bool :=
  match a.identity?, b.identity? with
  | some x, some y => x == y
  | _, _ => false

mutual
/-- Equality of expanded values. -/
def sameExpanded : Value → Value → Bool
  | .null, .null => true
  | .bool a, .bool b => a == b
  | .number a, .number b => a == b
  | .text a, .text b => a == b
  | .absolute a, .absolute b => a == b
  | .relative a, .relative b => a == b
  | .auto, .auto => true
  | .color a, .color b => a == b
  | .styling _ a, .styling _ b => a.same b
  | .filter _ name properties, .filter _ name' properties' =>
    name == name' && sameEntries properties properties'
  | .array _ items, b => b.fixedItems?.any fun others => sameItems items others
  | .map _ entries, b => b.fixedEntries?.any fun others =>
    entries.length == others.length && foundIn entries others
  | .handle ref kind label, b => match kind with
    | .array => b.fixedItems?.any List.isEmpty
    | .map => b.fixedEntries?.any List.isEmpty
    | _ => kind == b.kind && kind.comparesByIdentity && isIdentical (.handle ref kind label) b
  | a, b => a.kind == b.kind && a.kind.comparesByIdentity && isIdentical a b
termination_by structural a => a

/-- Equality of lists of values, element by element. -/
def sameItems : List Value → List Value → Bool
  | [], [] => true
  | a :: as, b :: bs => sameExpanded a b && sameItems as bs
  | _, _ => false

/-- Is each of the entries found, with an equal value, among the other ones? -/
def foundIn : List (String × Value) → List (String × Value) → Bool
  | [], _ => true
  | (key, a) :: rest, others =>
    ((Json.lookup? key others).any fun b => sameExpanded a b) && foundIn rest others

/-- Equality of sorted lists of entries. -/
def sameEntries : List (String × Value) → List (String × Value) → Bool
  | [], [] => true
  | (key, a) :: as, (key', b) :: bs => key == key' && sameExpanded a b && sameEntries as bs
  | _, _ => false
end

/-- Equality of values. -/
def same (store : Store) (a b : Value) : Bool :=
  sameExpanded (a.expanded store) (b.expanded store)

end LiveTemplate.Value
