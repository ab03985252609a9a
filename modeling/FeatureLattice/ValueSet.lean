import FeatureLattice.Fault

/-!
# Sets of values

A set of values keeps one element of each class of equal values: the one that came first. Union
keeps the elements of the left set; intersection keeps those of the smaller set, and of the right
one if both have the same size. Order and number of the values that fill a set do not matter to
equality and membership. Values are looked up by equality alone: a table that looks at hashes first
finds the same ones, as equal elements have equal hashes.
-/
namespace FeatureLattice

/-- A set of pairwise unequal values. -/
structure ValueSet where
  elements : List Value
  unequal : Unequal elements

namespace ValueSet

def empty : ValueSet := ⟨[], List.Pairwise.nil⟩

/-- The set of the listed values; of equal ones the first stays. -/
def ofList (xs : List Value) : ValueSet := ⟨distinct xs, unequal_distinct xs⟩

/-- The set as a value, which can be an element of another set. -/
def toValue (s : ValueSet) : Value := .collection .valueSet s.elements

/-- Sets are equal when they are as values. -/
instance : BEq ValueSet := ⟨fun s t => s.toValue == t.toValue⟩

def size (s : ValueSet) : Nat := s.elements.length

def isEmpty (s : ValueSet) : Bool := s.elements.isEmpty

/-- Whether an element equals the value. -/
def contains (s : ValueSet) (v : Value) : Bool := occursIn v s.elements

def isSubsetOf (s t : ValueSet) : Bool := s.elements.all t.contains

def union (s t : ValueSet) : ValueSet :=
  ⟨t.elements.foldl addNew s.elements, s.unequal.foldl_addNew t.elements⟩

/-- The elements that equal an element of another set. -/
def restrict (s t : ValueSet) : ValueSet :=
  ⟨s.elements.filter t.contains, s.unequal.filter _⟩

def intersection (s t : ValueSet) : ValueSet :=
  if s.isEmpty || t.isEmpty then empty
  else if s.size < t.size then s.restrict t else t.restrict s

/-- The literal forms of the elements in ascending order. -/
def literals (nb : Notebook) (s : ValueSet) : List String :=
  (s.elements.map fun v => v.literal nb).mergeSort fun a b => a ≤ b

/-- Fill a set with the values that a value yields, if they can be elements. -/
def ofValue? (v : Value) : Except Fault ValueSet :=
  match v.items? with
  | none => .error (.notIterable v.typeName)
  | some items =>
    match Value.firstObstacle? items with
    | some typeName => .error (.unhashable typeName)
    | none => .ok (ofList items)

/-- Look a value up. A changeable set is looked up by its elements, any other value that cannot be
an element is a fault. -/
def lookup (s : ValueSet) (v : Value) : Except Fault Bool :=
  match v with
  | .collection .set items => .ok (s.contains (.collection .frozenset items))
  | v =>
    match v.obstacle? with
    | some typeName => .error (.unhashable typeName)
    | none => .ok (s.contains v)

end ValueSet

/-- The set that a value is, if it is one. -/
def Value.asValueSet? : Value → Option ValueSet
  | collection .valueSet items => some (.ofList items)
  | _ => none

/-- The names of a context as a set of values. -/
def NameSet.toValueSet (s : NameSet) : ValueSet := .ofList (s.names.map Value.str)

namespace Value

/-- For each value the place of the first equal one, as in a table with the values as keys. The keys
of such a table must agree with their hashes, as elements of sets do. -/
def group (vs : List Value) : Except Fault (List Nat) :=
  match firstObstacle? vs with
  | some typeName => .error (.unhashable typeName)
  | none => .ok (vs.zipIdx.map fun (v, i) => ((vs.take i).findIdx? (· == v)).getD i)

end Value

end FeatureLattice
