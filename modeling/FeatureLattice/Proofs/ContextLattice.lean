import FeatureLattice.Proofs.Meaning
import Mathlib.Order.BoundedOrder.Lattice

/-!
# The lattice of contexts

Contexts form a bounded distributive lattice: inclusion is a partial order, intersection the
greatest lower bound, union the least upper bound, the universal context is on top and the empty
one at the bottom. All laws come from reading the operations by what they enable. Below the
universal context the lattice is infinite, but below a concrete context it is not, so there is a
height that every descent lowers.
-/
namespace FeatureLattice

namespace NameSet

/-- The number of names. -/
def size (s : NameSet) : Nat := s.names.length

theorem nodup (s : NameSet) : s.names.Nodup := s.ascending.imp fun h => ne_of_lt h

theorem size_le {s t : NameSet} (h : ∀ x ∈ s, x ∈ t) : s.size ≤ t.size :=
  (List.subperm_of_subset s.nodup h).length_le

/-- A proper part of a set has fewer names. -/
theorem size_lt {s t : NameSet} (h : ∀ x ∈ s, x ∈ t) (hne : s ≠ t) : s.size < t.size := by
  refine lt_of_le_of_ne (size_le h) fun hsize => hne ?_
  have hperm := (List.subperm_of_subset s.nodup h).perm_of_length_le hsize.ge
  exact ext_mem fun x => hperm.mem_iff

end NameSet

namespace Context

variable {c d : Context} {x : String}

instance : Lattice Context where
  le c d := c.isSubsetOf d = true
  le_refl c := isSubsetOf_iff.2 fun _ h => h
  le_trans c d e hcd hde := isSubsetOf_iff.2 fun x h =>
    isSubsetOf_iff.1 hde x (isSubsetOf_iff.1 hcd x h)
  le_antisymm c d hcd hdc := ext_enables fun x =>
    ⟨isSubsetOf_iff.1 hcd x, isSubsetOf_iff.1 hdc x⟩
  inf := intersection
  inf_le_left c d := isSubsetOf_iff.2 fun x h => by
    rw [enables_intersection, Bool.and_eq_true] at h
    exact h.1
  inf_le_right c d := isSubsetOf_iff.2 fun x h => by
    rw [enables_intersection, Bool.and_eq_true] at h
    exact h.2
  le_inf c d e hd he := isSubsetOf_iff.2 fun x h => by
    rw [enables_intersection, isSubsetOf_iff.1 hd x h, isSubsetOf_iff.1 he x h, Bool.and_self]
  sup := union
  le_sup_left c d := isSubsetOf_iff.2 fun x h => by simp [h]
  le_sup_right c d := isSubsetOf_iff.2 fun x h => by simp [h]
  sup_le c d e hc hd := isSubsetOf_iff.2 fun x h => by
    rw [enables_union, Bool.or_eq_true] at h
    exact h.elim (isSubsetOf_iff.1 hc x) (isSubsetOf_iff.1 hd x)

theorem le_iff_enables : c ≤ d ↔ ∀ x, c.enables x = true → d.enables x = true := isSubsetOf_iff

@[simp] theorem enables_inf : (c ⊓ d).enables x = (c.enables x && d.enables x) :=
  enables_intersection c d x

@[simp] theorem enables_sup : (c ⊔ d).enables x = (c.enables x || d.enables x) :=
  enables_union c d x

instance : DistribLattice Context where
  le_sup_inf c d e := by
    rw [le_iff_enables]
    intro x h
    rwa [enables_sup, enables_inf, Bool.or_and_distrib_left, ← enables_sup, ← enables_sup,
      ← enables_inf]

instance : BoundedOrder Context where
  top := universal
  le_top _ := le_iff_enables.2 fun _ _ => rfl
  bot := empty
  bot_le _ := le_iff_enables.2 fun x h => by simp at h

/-- The height of a context: a concrete one has a level for each of its names, and the universal
one stands above all concrete ones of at most the given size. -/
def height (size : Nat) : Context → Nat
  | universal => size + 1
  | concrete s => s.size

/-- Every step down loses height, from the universal context too if it leads to at most the given
size. -/
theorem height_lt {size : Nat} (h : c < d) (hsize : ∀ s, c = concrete s → s.size ≤ size) :
    c.height size < d.height size := by
  have hsub := le_iff_enables.1 h.le
  cases c with
  | universal => exact absurd (eq_universal_of_enables fun x => hsub x rfl) h.ne'
  | concrete s =>
    cases d with
    | universal => exact Nat.lt_succ_of_le (hsize s rfl)
    | concrete t =>
      refine NameSet.size_lt (fun x hx => ?_) fun he => h.ne (he ▸ rfl)
      exact enables_concrete.1 (hsub x (enables_concrete.2 hx))

end Context

/-- The laws of a bounded distributive lattice, for an equality and an order that are tests. -/
structure IsBoundedDistributive {α : Type} (eq le : α → α → Bool) (meet join : α → α → α)
    (top bottom : α) : Prop where
  refl : ∀ a, le a a = true
  trans : ∀ a b c, le a b = true → le b c = true → le a c = true
  antisymm : ∀ a b, le a b = true ∧ le b a = true ↔ eq a b = true
  le_meet : ∀ a b c, le c (meet a b) = true ↔ le c a = true ∧ le c b = true
  join_le : ∀ a b c, le (join a b) c = true ↔ le a c = true ∧ le b c = true
  meet_self : ∀ a, eq (meet a a) a = true
  join_self : ∀ a, eq (join a a) a = true
  meet_comm : ∀ a b, eq (meet a b) (meet b a) = true
  join_comm : ∀ a b, eq (join a b) (join b a) = true
  meet_assoc : ∀ a b c, eq (meet (meet a b) c) (meet a (meet b c)) = true
  join_assoc : ∀ a b c, eq (join (join a b) c) (join a (join b c)) = true
  meet_join_self : ∀ a b, eq (meet a (join a b)) a = true
  join_meet_self : ∀ a b, eq (join a (meet a b)) a = true
  meet_join : ∀ a b c, eq (meet a (join b c)) (join (meet a b) (meet a c)) = true
  join_meet : ∀ a b c, eq (join a (meet b c)) (meet (join a b) (join a c)) = true
  top_meet : ∀ a, eq (meet top a) a = true
  top_join : ∀ a, eq (join top a) top = true
  bottom_meet : ∀ a, eq (meet bottom a) bottom = true
  bottom_join : ∀ a, eq (join bottom a) a = true

namespace Context

/-- The order of contexts is the one of the lattice, so each law is one of its own. -/
theorem isBoundedDistributive :
    IsBoundedDistributive (· == ·) isSubsetOf intersection union universal empty where
  refl c := (le_refl c : c ≤ c)
  trans c d e (hcd : c ≤ d) (hde : d ≤ e) := hcd.trans hde
  antisymm c d := by
    rw [beq_iff_eq]
    exact (le_antisymm_iff : c = d ↔ c ≤ d ∧ d ≤ c).symm
  le_meet c d e := (le_inf_iff : e ≤ c ⊓ d ↔ e ≤ c ∧ e ≤ d)
  join_le c d e := (sup_le_iff : c ⊔ d ≤ e ↔ c ≤ e ∧ d ≤ e)
  meet_self c := beq_iff_eq.2 (inf_idem c)
  join_self c := beq_iff_eq.2 (sup_idem c)
  meet_comm c d := beq_iff_eq.2 (inf_comm c d)
  join_comm c d := beq_iff_eq.2 (sup_comm c d)
  meet_assoc c d e := beq_iff_eq.2 (inf_assoc c d e)
  join_assoc c d e := beq_iff_eq.2 (sup_assoc c d e)
  meet_join_self _ _ := beq_iff_eq.2 inf_sup_self
  join_meet_self _ _ := beq_iff_eq.2 sup_inf_self
  meet_join c d e := beq_iff_eq.2 (inf_sup_left c d e)
  join_meet c d e := beq_iff_eq.2 (sup_inf_left c d e)
  top_meet c := beq_iff_eq.2 (top_inf_eq c)
  top_join c := beq_iff_eq.2 (top_sup_eq c)
  bottom_meet c := beq_iff_eq.2 (bot_inf_eq c)
  bottom_join c := beq_iff_eq.2 (bot_sup_eq c)

/-- Contexts obey the laws of a bounded distributive lattice, and the order that the semilattice of
contexts brings along is the one that its meet and the union define. -/
theorem isBoundedDistributive_and_leq_iff :
    IsBoundedDistributive (· == ·) isSubsetOf intersection union universal empty ∧
    ∀ c d : Context, (lattice.leq c d = true ↔ (lattice.meet c d == c) = true) ∧
      (lattice.leq c d = true ↔ (c.union d == d) = true) := by
  refine ⟨isBoundedDistributive, fun c d => ?_⟩
  rw [beq_iff_eq, beq_iff_eq]
  exact ⟨(inf_eq_left : c ⊓ d = c ↔ c ≤ d).symm, (sup_eq_right : c ⊔ d = d ↔ c ≤ d).symm⟩

end Context

end FeatureLattice
