import FeatureLattice.Proofs.ContextLattice
import FeatureLattice.Proofs.LawCertificate
import FeatureLattice.Proofs.NumberOrder

/-!
# Lattices that pass every check

A lattice is beyond the law checker's reproach if its operations read as the meet, the order and
the equality of a lattice with a top: every law then holds of all values, and so of all samples,
whatever the configuration asks for. The meets that the laws nest need not be samples. Contexts read
as themselves. Numbers read as their values, so numbers that are equal across kinds break no law.
-/
namespace FeatureLattice

namespace MeetSemilattice

variable {α β : Type} [SemilatticeInf β] [OrderTop β]

/-- The operations on values read as those of a lattice with a top. Values that read the same are
equal for the lattice, though they may differ. -/
structure ReadsAs (l : MeetSemilattice α) (reading : α → β) : Prop where
  top : reading l.top = ⊤
  meet : ∀ a b, reading (l.meet a b) = reading a ⊓ reading b
  eq_iff : ∀ a b, l.eq a b = true ↔ reading a = reading b
  leq_iff : ∀ a b, l.leq a b = true ↔ reading a ≤ reading b

/-- All laws hold on any values. -/
theorem ReadsAs.passes {l : MeetSemilattice α} {reading : α → β} (h : l.ReadsAs reading)
    (config : LawCheckConfig) (vs : List α) : l.Passes config vs where
  idempotent a _ := by
    rw [h.eq_iff, h.meet, inf_idem]
  identity a _ := by
    rw [h.eq_iff, h.meet, h.top, top_inf_eq]
  commutative a _ b _ := by
    rw [h.eq_iff, h.meet, h.meet, inf_comm]
  decreasing _ a _ b _ := by
    rw [h.leq_iff, h.leq_iff, h.meet]
    exact ⟨inf_le_left, inf_le_right⟩
  associative _ a _ b _ c _ := by
    rw [h.eq_iff, h.meet, h.meet, h.meet, h.meet, inf_assoc]
  monotone _ a _ b _ c _ hab := by
    rw [h.leq_iff, h.meet, h.meet]
    exact inf_le_inf_right (reading c) ((h.leq_iff a b).1 hab)

/-- A check with a valid limit finds nothing, whatever it asks for. -/
theorem ReadsAs.verifyLaws_eq_ok_nil [BEq α] {l : MeetSemilattice α} {reading : α → β}
    (h : l.ReadsAs reading) {config : LawCheckConfig} (hpos : 0 < config.maxSamples)
    (samples : List α) : l.verifyLaws samples config = .ok [] :=
  verifyLaws_eq_ok_nil_iff.2 ⟨hpos, h.passes config _⟩

end MeetSemilattice

/-- Contexts are a lattice already, and their order is the one that the lattice brings along. -/
theorem Context.readsAs_lattice : Context.lattice.ReadsAs fun c : Context => c where
  top := rfl
  meet _ _ := rfl
  eq_iff _ _ := beq_iff_eq
  leq_iff _ _ := Iff.rfl

/-- The smaller of two numbers is the meet of their values. -/
theorem Number.readsAs_minLattice : Number.minLattice.ReadsAs Number.value where
  top := rfl
  meet := value_min
  eq_iff _ _ := beq_iff
  leq_iff a b := by
    have hleq : Number.minLattice.leq a b = (a.min b == a) := rfl
    rw [hleq, beq_iff, value_min, inf_eq_left]

end FeatureLattice
