/-!
# Finite sets of names

A set of names is kept as the list of its members in strictly ascending code-point order, each
name once. The list is therefore the only one with these members: two sets with the same members
are equal, and printing a set needs no sorting. Union inserts one name at a time, intersection
drops names, so both keep the order.
-/
namespace FeatureLattice

/-- A finite set of names, listed in strictly ascending order. -/
structure NameSet where
  names : List String
  ascending : names.Pairwise (· < ·)
  deriving DecidableEq

namespace NameSet

/-- Put a name at its place in an ascending list, unless the list already has it. -/
def insertAscending (x : String) : List String → List String
  | [] => [x]
  | y :: ys => if x < y then x :: y :: ys else if x = y then y :: ys else y :: insertAscending x ys

theorem mem_insertAscending {x z : String} {ys : List String} :
    z ∈ insertAscending x ys ↔ z = x ∨ z ∈ ys := by
  induction ys with
  | nil => simp [insertAscending]
  | cons y ys ih => grind [insertAscending]

theorem insertAscending_pairwise (x : String) {ys : List String} (h : ys.Pairwise (· < ·)) :
    (insertAscending x ys).Pairwise (· < ·) := by
  induction ys with
  | nil => simp [insertAscending]
  | cons y ys ih =>
    obtain ⟨hy, hys⟩ := List.pairwise_cons.1 h
    unfold insertAscending
    split
    · rename_i hxy
      refine List.pairwise_cons.2 ⟨fun z hz => ?_, h⟩
      rcases List.mem_cons.1 hz with rfl | hz
      · exact hxy
      · exact String.lt_trans hxy (hy z hz)
    · split
      · exact h
      · rename_i hxy hne
        refine List.pairwise_cons.2 ⟨fun z hz => ?_, ih hys⟩
        rcases mem_insertAscending.1 hz with rfl | hz
        · exact Decidable.byContradiction fun hyz =>
            hne (String.le_antisymm (String.not_lt.1 hyz) (String.not_lt.1 hxy))
        · exact hy z hz

instance : Membership String NameSet := ⟨fun s x => x ∈ s.names⟩

instance (x : String) (s : NameSet) : Decidable (x ∈ s) :=
  inferInstanceAs (Decidable (x ∈ s.names))

@[simp] theorem mem_names {x : String} {s : NameSet} : x ∈ s.names ↔ x ∈ s := Iff.rfl

def empty : NameSet := ⟨[], List.Pairwise.nil⟩

def insert (s : NameSet) (x : String) : NameSet :=
  ⟨insertAscending x s.names, insertAscending_pairwise x s.ascending⟩

/-- The set of the listed names; their order and repetitions do not matter. -/
def ofList (xs : List String) : NameSet := xs.foldl insert empty

def union (s t : NameSet) : NameSet := t.names.foldl insert s

def inter (s t : NameSet) : NameSet :=
  ⟨s.names.filter (· ∈ t), s.ascending.filter _⟩

def isSubsetOf (s t : NameSet) : Bool := s.names.all (· ∈ t)

@[simp] theorem not_mem_empty {x : String} : ¬ x ∈ empty := List.not_mem_nil

@[simp] theorem mem_insert {x z : String} {s : NameSet} : z ∈ s.insert x ↔ z = x ∨ z ∈ s :=
  mem_insertAscending

theorem mem_foldl_insert {z : String} {xs : List String} {s : NameSet} :
    z ∈ xs.foldl insert s ↔ z ∈ xs ∨ z ∈ s := by
  induction xs generalizing s with
  | nil => simp
  | cons x xs ih => simp only [List.foldl_cons, ih, mem_insert, List.mem_cons]; grind

@[simp] theorem mem_ofList {z : String} {xs : List String} : z ∈ ofList xs ↔ z ∈ xs := by
  simp [ofList, mem_foldl_insert]

@[simp] theorem mem_union {z : String} {s t : NameSet} : z ∈ s.union t ↔ z ∈ s ∨ z ∈ t := by
  rw [union, mem_foldl_insert, mem_names, or_comm]

@[simp] theorem mem_inter {z : String} {s t : NameSet} : z ∈ s.inter t ↔ z ∈ s ∧ z ∈ t := by
  show z ∈ s.names.filter (· ∈ t) ↔ _
  simp

theorem isSubsetOf_iff {s t : NameSet} : s.isSubsetOf t = true ↔ ∀ x ∈ s, x ∈ t := by
  simp [isSubsetOf, List.all_eq_true]

end NameSet

end FeatureLattice
