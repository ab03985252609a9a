import FeatureLattice.Distinct
import FeatureLattice.Number
import FeatureLattice.Lattice.Named

/-!
# Values

Sets hold values of mixed kinds, and users may hand in any value where a set of names is expected.
Equality of values is `Value.same`: numbers by exact value, whatever their kind, sequences item by
item, collections by mutual inclusion, all else within its own kind. It does not read the notes of
a tag, which may change, and so it never changes itself.
-/
namespace FeatureLattice

/-- What copying a set does with a tag: a plain tag and one that only looks copyable are shared,
a copyable one is replaced by a fresh tag. -/
inductive CopyMode where
  | plain
  | copyable
  | lookalike
  deriving DecidableEq

/-- A labelled object with changeable notes. The notes are kept in a notebook under `id`. -/
structure Tag where
  name : String
  mode : CopyMode
  id : Nat
  deriving DecidableEq

/-- The kinds of sequence. Every operation reads an argument once at most, so an iterator is a value
like others here: one that has not been read yet. -/
inductive SequenceForm where
  | tuple
  | list
  | iterator
  deriving DecidableEq

/-- The kinds of collection without order; only `set` can change. -/
inductive CollectionForm where
  | set
  | frozenset
  | valueSet
  deriving DecidableEq

/-- Whether collections of two kinds can be equal: sets that can and cannot change may be. -/
def CollectionForm.agrees (f g : CollectionForm) : Bool :=
  decide (f = .valueSet) == decide (g = .valueSet)

/-- Any value that can be an element of a set or an argument. -/
inductive Value where
  | absent
  | number (n : Number)
  | str (s : String)
  | bytes (bs : List UInt8)
  | context (c : Context)
  | kind (k : ContextKind)
  | lattice (l : NamedLattice)
  | tag (t : Tag)
  | sequence (form : SequenceForm) (items : List Value)
  | collection (form : CollectionForm) (items : List Value)

namespace Value

abbrev int (n : Int) : Value := number (.int n)

abbrev bool (b : Bool) : Value := number (.bool b)

mutual

/-- Equality of values. -/
def same : Value → Value → Bool
  | absent, absent => true
  | number a, number b => a == b
  | str s, str t => s = t
  | bytes as, bytes bs => as = bs
  | context c, context d => c = d
  | kind j, kind k => j = k
  | lattice l, lattice m => l.isFamily && m.isFamily
  | tag s, tag t => s.name = t.name
  | sequence f xs, sequence g ys => f = g && f ≠ .iterator && sameItems xs ys
  | collection f xs, collection g ys =>
    f.agrees g && includedIn xs ys && ys.all fun y => covers xs y
  | _, _ => false
  termination_by structural v => v

/-- Equality item by item. -/
def sameItems : List Value → List Value → Bool
  | [], [] => true
  | x :: xs, y :: ys => same x y && sameItems xs ys
  | _, _ => false
  termination_by structural xs => xs

/-- Whether each item of the first list has an equal one in the second. -/
def includedIn : List Value → List Value → Bool
  | [], _ => true
  | x :: xs, ys => (ys.any fun y => same x y) && includedIn xs ys
  termination_by structural xs => xs

/-- Whether the list has an item equal to the given value. -/
def covers : List Value → Value → Bool
  | [], _ => false
  | x :: xs, y => same x y || covers xs y
  termination_by structural xs => xs

end

instance : BEq Value := ⟨same⟩

/-- The name of a value's type in messages. -/
def typeName : Value → String
  | absent => "NoneType"
  | number (.bool _) => "bool"
  | number (.int _) => "int"
  | number (.float _) => "float"
  | str _ => "str"
  | bytes _ => "bytes"
  | context _ => "FeatureContext"
  | kind _ => "ContextKind"
  | lattice l => l.typeName
  | tag _ => "Tag"
  | sequence .tuple _ => "tuple"
  | sequence .list _ => "list"
  | sequence .iterator _ => "generator"
  | collection .set _ => "set"
  | collection .frozenset _ => "frozenset"
  | collection .valueSet _ => "ValueSet"

mutual

/-- The type of what keeps a value from being an element of a set: the value itself if it can
change, or the first such item inside a tuple. -/
def obstacle? : Value → Option String
  | sequence .list _ => some "list"
  | collection .set _ => some "set"
  | sequence .tuple items => firstObstacle? items
  | _ => none
  termination_by structural v => v

def firstObstacle? : List Value → Option String
  | [] => none
  | x :: xs => (obstacle? x).or (firstObstacle? xs)
  termination_by structural xs => xs

end

/-- Nothing stands in the way inside a list when nothing does in any item. -/
theorem firstObstacle?_eq_none {xs : List Value} (h : ∀ x ∈ xs, obstacle? x = none) :
    firstObstacle? xs = none := by
  induction xs with
  | nil => rfl
  | cons x xs ih =>
    have hx : obstacle? x = none := h x List.mem_cons_self
    have hxs : firstObstacle? xs = none := ih fun y hy => h y (List.mem_cons_of_mem x hy)
    rw [firstObstacle?, hx, hxs, Option.none_or]

theorem firstObstacle?_eq_none_iff {xs : List Value} :
    firstObstacle? xs = none ↔ ∀ x ∈ xs, obstacle? x = none := by
  constructor
  · induction xs with
    | nil => exact fun _ x hx => absurd hx List.not_mem_nil
    | cons x xs ih =>
      intro h
      obtain ⟨hx, hxs⟩ := Option.or_eq_none_iff.1 h
      exact List.forall_mem_cons.2 ⟨hx, ih hxs⟩
  · exact firstObstacle?_eq_none

/-- The items that reading a value in order yields, if it can be read so. -/
def items? : Value → Option (List Value)
  | sequence _ items => some items
  | collection _ items => some items
  | str s => some (s.toList.map fun c => str (String.singleton c))
  | bytes bs => some (bs.map fun b => int b.toNat)
  | _ => none

/-- Whether a value offers an operation named as the copying of sets is; a lookalike tag does,
although its copy is not an operation. -/
def offersCopy : Value → Bool
  | context _ => true
  | collection .valueSet _ => true
  | tag t => t.mode ≠ .plain
  | _ => false

end Value

end FeatureLattice
