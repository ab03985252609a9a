import FeatureLattice.Proofs.ContextLattice

/-!
# Meets and joins of many contexts

The meet of a list is computed from the left, from the universal context on. What comes out is
known by its order alone: below it is what is below all members. This leaves no room for the order
of the members, for repetitions, or for members that are universal, and it says how the meets of two
lists combine. The join of a list is the same thing upside down.
-/
namespace FeatureLattice

section Fold

variable {α : Type}

/-- A fold of lists takes the greatest lower bound, for an equality and an order that are tests:
members may change places, be repeated or be left out if they are neutral, and a list may be folded
in two parts. -/
structure IsBoundOfList (eq le : α → α → Bool) (combine : α → α → α) (neutral : α)
    (fold : List α → α) : Prop where
  le_member : ∀ cs, ∀ c ∈ cs, le (fold cs) c = true
  greatest : ∀ cs d, (∀ c ∈ cs, le d c = true) → le d (fold cs) = true
  eq_neutral_iff : ∀ cs, eq (fold cs) neutral = true ↔ ∀ c ∈ cs, eq c neutral = true
  perm : ∀ cs ds, cs.Perm ds → eq (fold cs) (fold ds) = true
  insertion : ∀ cs ds, cs.Sublist ds → (∀ d ∈ ds, d ∈ cs ∨ eq d neutral = true) →
    eq (fold ds) (fold cs) = true
  append : ∀ cs ds, eq (fold (cs ++ ds)) (combine (fold cs) (fold ds)) = true

theorem le_foldl_inf_iff [SemilatticeInf α] {cs : List α} {d start : α} :
    d ≤ cs.foldl (· ⊓ ·) start ↔ d ≤ start ∧ ∀ c ∈ cs, d ≤ c := by
  induction cs generalizing start with
  | nil => simp
  | cons c cs ih => simp [ih, and_assoc]

/-- Whatever the semilattice, its meets bound lists. -/
theorem isBoundOfList_foldl_inf [SemilatticeInf α] [OrderTop α] {eq le : α → α → Bool}
    (heq : ∀ a b, eq a b = true ↔ a = b) (hle : ∀ a b, le a b = true ↔ a ≤ b) :
    IsBoundOfList eq le (· ⊓ ·) ⊤ fun cs => cs.foldl (· ⊓ ·) ⊤ := by
  -- The lower bounds of the members are all that is used of the fold from here on.
  have hfold : ∀ (cs : List α) d, d ≤ cs.foldl (· ⊓ ·) ⊤ ↔ ∀ c ∈ cs, d ≤ c := by
    intro cs d
    rw [le_foldl_inf_iff]
    exact and_iff_right le_top
  have hmember : ∀ (cs : List α), ∀ c ∈ cs, cs.foldl (· ⊓ ·) ⊤ ≤ c :=
    fun cs => (hfold cs _).1 le_rfl
  constructor
  case le_member =>
    intro cs c hc
    exact (hle _ _).2 (hmember cs c hc)
  case greatest =>
    intro cs d h
    exact (hle _ _).2 ((hfold cs d).2 fun c hc => (hle _ _).1 (h c hc))
  case eq_neutral_iff =>
    intro cs
    simp only [heq, ← top_le_iff, hfold]
  case perm =>
    intro cs ds h
    rw [heq]
    apply eq_of_forall_le_iff
    intro d
    simp only [hfold, h.mem_iff]
  case insertion =>
    intro cs ds hsub hnew
    rw [heq]
    apply le_antisymm
    · exact (hfold cs _).2 fun c hc => hmember ds c (hsub.subset hc)
    · apply (hfold ds _).2
      intro d hd
      by_cases hc : d ∈ cs
      · exact hmember cs d hc
      · have htop : d = ⊤ := (heq _ _).1 ((hnew d hd).resolve_left hc)
        rw [htop]
        exact le_top
  case append =>
    intro cs ds
    rw [heq]
    apply eq_of_forall_le_iff
    intro d
    simp only [hfold, le_inf_iff, List.mem_append, or_imp, forall_and]

end Fold

namespace Context

/-- **The meet of a list is its greatest lower bound and the join its least upper bound.** Neither
depends on the order of the members or on repetitions. Universal members do not matter to the meet,
which is universal if there are no others, nor empty ones to the join. The meet or join of two lists
put together is that of the two results. -/
theorem isBoundOfList_meetAll_and_joinAll :
    IsBoundOfList (· == ·) lattice.leq lattice.meet lattice.top lattice.meetAll ∧
    IsBoundOfList (· == ·) (fun c d => d.isSubsetOf c) union empty joinAll := by
  constructor
  · exact isBoundOfList_foldl_inf (α := Context) (fun _ _ => beq_iff_eq) fun _ _ => Iff.rfl
  · exact isBoundOfList_foldl_inf (α := Contextᵒᵈ) (fun _ _ => beq_iff_eq) fun _ _ => Iff.rfl

/-- The universal context and the second copy of a member are both left out. -/
example : lattice.meetAll [.of ["a", "b"], .universal, .of ["b", "c"], .of ["a", "b"]] =
    .of ["b"] := by
  decide

end Context

end FeatureLattice
