import FeatureLattice.NameSet

/-!
# Feature contexts

A context says which features are known to be enabled at a program point. The universal context
enables every name, those nobody has thought of included; a concrete one enables exactly the names
of a finite set. The meaning of a context is `Context.enables`: intersection, union and the order
are the pointwise "and", "or" and implication of meanings, and no concrete context, however large,
means the same as the universal one.
-/
namespace FeatureLattice

/-- Which of the two cases a context is. -/
inductive ContextKind where
  | universal
  | concrete
  deriving DecidableEq

/-- The features known to be enabled at a program point. -/
inductive Context where
  | universal
  | concrete (names : NameSet)
  deriving DecidableEq

namespace Context

/-- The context that enables nothing. -/
def empty : Context := concrete NameSet.empty

/-- The concrete context of the listed names. -/
def of (names : List String) : Context := concrete (NameSet.ofList names)

/-- Read the nullable form, in which a missing set stands for every feature. -/
def ofOption : Option NameSet → Context
  | some names => concrete names
  | none => universal

def kind : Context → ContextKind
  | universal => .universal
  | concrete _ => .concrete

/-- The finite set of a concrete context; the universal context has none. -/
def names? : Context → Option NameSet
  | universal => none
  | concrete names => some names

def isUniversal : Context → Bool
  | universal => true
  | concrete _ => false

/-- Whether a feature is known to be enabled. -/
def enables : Context → String → Bool
  | universal, _ => true
  | concrete names, x => x ∈ names

/-- The order of contexts: every feature enabled on the left is enabled on the right. -/
def isSubsetOf : Context → Context → Bool
  | _, universal => true
  | universal, concrete _ => false
  | concrete s, concrete t => s.isSubsetOf t

/-- Features enabled in both contexts; the universal context is neutral. -/
def intersection : Context → Context → Context
  | universal, d => d
  | c, universal => c
  | concrete s, concrete t => concrete (s.inter t)

/-- Features enabled in either context; the universal context absorbs. -/
def union : Context → Context → Context
  | universal, _ => universal
  | _, universal => universal
  | concrete s, concrete t => concrete (s.union t)

@[simp] theorem ofOption_names? (c : Context) : ofOption c.names? = c := by
  cases c <;> rfl

@[simp] theorem enables_universal (x : String) : universal.enables x = true := rfl

@[simp] theorem enables_empty (x : String) : empty.enables x = false := by
  simp [empty, enables]

@[simp] theorem enables_of (names : List String) (x : String) :
    (of names).enables x = decide (x ∈ names) := by
  simp [of, enables]

@[simp] theorem enables_intersection (c d : Context) (x : String) :
    (c.intersection d).enables x = (c.enables x && d.enables x) := by
  cases c <;> cases d <;> simp [intersection, enables]

@[simp] theorem enables_union (c d : Context) (x : String) :
    (c.union d).enables x = (c.enables x || d.enables x) := by
  cases c <;> cases d <;> simp [union, enables]

end Context

end FeatureLattice
