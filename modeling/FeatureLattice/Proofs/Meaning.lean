import FeatureLattice.Lattice.Contexts
import Mathlib.Data.Fintype.EquivFin
import Mathlib.Data.List.Sort
import Mathlib.Data.String.Basic

/-!
# Contexts by their meaning

A context is determined by the names it enables. Within the concrete contexts this is so because a
set of names has one ascending list; between a concrete and the universal context because names
never run out. For the same reason the order, which only compares kinds and finite sets, is
implication of meanings. The meet and the join of a list are read through the same view.
-/
namespace FeatureLattice

namespace NameSet

/-- A set of names is determined by its members. -/
theorem ext_mem {s t : NameSet} (h : ∀ x, x ∈ s ↔ x ∈ t) : s = t := by
  cases s with
  | mk xs hxs =>
    cases t with
    | mk ys hys =>
      have he : xs = ys := List.Pairwise.eq_of_mem_iff hxs hys h
      subst he
      rfl

/-- Names never run out. -/
theorem exists_not_mem (s : NameSet) : ∃ x, ¬ x ∈ s := by
  obtain ⟨x, hx⟩ := Infinite.exists_notMem_finset s.names.toFinset
  exact ⟨x, fun hm => hx (List.mem_toFinset.2 hm)⟩

end NameSet

namespace Context

@[simp] theorem enables_concrete {s : NameSet} {x : String} :
    (concrete s).enables x = true ↔ x ∈ s := by
  simp [enables]

/-- Only the universal context enables every name. -/
theorem eq_universal_of_enables {c : Context} (h : ∀ x, c.enables x = true) : c = universal := by
  cases c with
  | universal => rfl
  | concrete s =>
    obtain ⟨x, hx⟩ := s.exists_not_mem
    exact absurd (enables_concrete.1 (h x)) hx

/-- Contexts that enable the same names are equal. -/
theorem ext_enables {c d : Context} (h : ∀ x, c.enables x = true ↔ d.enables x = true) :
    c = d := by
  cases c with
  | universal => exact (eq_universal_of_enables fun x => (h x).1 rfl).symm
  | concrete s =>
    cases d with
    | universal => exact eq_universal_of_enables fun x => (h x).2 rfl
    | concrete t => exact congrArg concrete (NameSet.ext_mem fun x => by simpa using h x)

/-- The order of contexts is implication of their meanings. -/
theorem isSubsetOf_iff {c d : Context} :
    c.isSubsetOf d = true ↔ ∀ x, c.enables x = true → d.enables x = true := by
  cases d with
  | universal => simp [isSubsetOf, enables]
  | concrete t =>
    cases c with
    | universal =>
      -- The order answers by kind alone. The meanings differ at a name outside the finite set.
      obtain ⟨x, hx⟩ := t.exists_not_mem
      refine iff_of_false Bool.false_ne_true fun h => hx ?_
      exact enables_concrete.1 (h x rfl)
    | concrete s => simp [isSubsetOf, NameSet.isSubsetOf_iff]

/-- The meet of a list enables what all its members enable. -/
theorem enables_meetAll {cs : List Context} {x : String} :
    (lattice.meetAll cs).enables x = true ↔ ∀ c ∈ cs, c.enables x = true := by
  have hfold (cs : List Context) (d : Context) :
      (cs.foldl intersection d).enables x = true ↔
        d.enables x = true ∧ ∀ c ∈ cs, c.enables x = true := by
    induction cs generalizing d with
    | nil => simp
    | cons c cs ih => simp [ih, and_assoc]
  exact (hfold cs universal).trans (and_iff_right rfl)

/-- The join of a list enables what some of its members enables. -/
theorem enables_joinAll {cs : List Context} {x : String} :
    (joinAll cs).enables x = true ↔ ∃ c ∈ cs, c.enables x = true := by
  have hfold (cs : List Context) (d : Context) :
      (cs.foldl union d).enables x = true ↔
        d.enables x = true ∨ ∃ c ∈ cs, c.enables x = true := by
    induction cs generalizing d with
    | nil => simp
    | cons c cs ih => simp [ih, or_assoc]
  rw [joinAll, hfold]
  simp

/-- What a context enables says everything about it: the operations, the order and equality are
"and", "or", implication and equivalence of meanings. A concrete context lacks some name, so none
equals the universal context or lies above it. -/
theorem enables_faithful (c d : Context) :
    (∀ x, (c.intersection d).enables x = true ↔ c.enables x = true ∧ d.enables x = true) ∧
    (∀ x, (c.union d).enables x = true ↔ c.enables x = true ∨ d.enables x = true) ∧
    (c.isSubsetOf d = true ↔ ∀ x, c.enables x = true → d.enables x = true) ∧
    ((c == d) = true ↔ ∀ x, c.enables x = true ↔ d.enables x = true) ∧
    ∀ s : NameSet, (∃ x, (concrete s).enables x = false) ∧ (concrete s == universal) = false ∧
      universal.isSubsetOf (concrete s) = false := by
  refine ⟨fun x => by simp, fun x => by simp, isSubsetOf_iff, ?_, fun s => ⟨?_, ?_, ?_⟩⟩
  · rw [beq_iff_eq]
    exact ⟨fun h x => by rw [h], ext_enables⟩
  · obtain ⟨x, hx⟩ := s.exists_not_mem
    exact ⟨x, by simpa [enables] using hx⟩
  · exact beq_eq_false_iff_ne.2 (by simp)
  · rfl

end Context

end FeatureLattice
