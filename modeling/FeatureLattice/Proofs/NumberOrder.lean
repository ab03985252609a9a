import FeatureLattice.Number
import Mathlib.Algebra.Order.Ring.Unbundled.Rat
import Mathlib.Order.BoundedOrder.Lattice

/-!
# The order of numbers

The values of numbers, with the infinities at the ends, are linearly ordered. Numbers of all kinds
are compared through their values only: the test on numbers is this order, and the smaller of two
numbers has the smaller value, whichever of two equal ones stands for it.
-/
namespace FeatureLattice

namespace Extended

variable {a b c : Extended}

@[simp] theorem lt_irrefl (a : Extended) : a.lt a = false := by
  cases a <;> simp [lt]

theorem lt_trans (hab : a.lt b = true) (hbc : b.lt c = true) : a.lt c = true := by
  cases a <;> cases b <;> cases c <;> simp_all only [lt, decide_eq_true_eq, reduceCtorEq]
  exact hab.trans hbc

theorem lt_asymm (hab : a.lt b = true) : ¬ b.lt a = true := by
  intro hba
  have haa := lt_trans hab hba
  simp at haa

/-- Values that differ are in order, one way or the other. -/
theorem lt_or_eq_or_lt (a b : Extended) : a.lt b = true ∨ a = b ∨ b.lt a = true := by
  cases a with
  | finite p =>
    cases b with
    | finite q => simpa [lt] using lt_trichotomy p q
    | _ => simp [lt]
  | _ => cases b <;> simp [lt]

instance : LinearOrder Extended where
  le a b := ¬ b.lt a = true
  lt a b := a.lt b = true
  le_refl a := by simp
  le_trans a b c hab hbc hca := by
    rcases lt_or_eq_or_lt a b with h | h | h
    · exact hbc (lt_trans hca h)
    · exact hbc (h ▸ hca)
    · exact hab h
  lt_iff_le_not_ge a b := ⟨fun h => ⟨lt_asymm h, not_not_intro h⟩, fun h => not_not.1 h.2⟩
  le_antisymm a b hab hba := by
    rcases lt_or_eq_or_lt a b with h | h | h
    · exact absurd h hba
    · exact h
    · exact absurd h hab
  le_total a b := by
    by_cases h : b.lt a = true
    · exact .inr (lt_asymm h)
    · exact .inl h
  toDecidableLE a b := inferInstanceAs (Decidable ¬ b.lt a = true)
  toDecidableEq := inferInstance
  toDecidableLT a b := inferInstanceAs (Decidable (a.lt b = true))

instance : OrderTop Extended where
  top := posInf
  le_top a := by
    show ¬ posInf.lt a = true
    simp [lt]

end Extended

namespace Number

variable {a b : Number}

theorem lt_iff : a.lt b = true ↔ a.value < b.value := Iff.rfl

/-- The smaller of two numbers has the smaller value. -/
theorem value_min (a b : Number) : (a.min b).value = a.value ⊓ b.value := by
  unfold Number.min
  split
  · rename_i h
    exact (inf_eq_right.2 (lt_iff.1 h).le).symm
  · rename_i h
    exact (inf_eq_left.2 (not_lt.1 fun hba => h (lt_iff.2 hba))).symm

end Number

end FeatureLattice
