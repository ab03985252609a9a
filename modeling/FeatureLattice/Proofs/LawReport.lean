import FeatureLattice.Lattice.Laws
import Mathlib.Data.List.Basic
import Mathlib.Data.List.ProdSigma

/-!
# What a report contains

A report of the law checker is written loop by loop, with several laws tested in each loop. Read law
by law, it contains the instances that fail, and each of them once for every choice of operands from
the checked samples. A law whose check is switched off does not occur.
-/
namespace FeatureLattice

/-- Whether the instances of a law are checked. -/
def LawCheckConfig.asksFor (config : LawCheckConfig) : Law → Bool
  | .idempotence => true
  | .identity => true
  | .commutativity => true
  | .decreasing => config.checkMonotonicity
  | .associativity => config.checkAssociativity
  | .monotonicity => config.checkMonotonicity

/-- The number of samples that an instance of a law takes. -/
@[simp] def Law.arity : Law → Nat
  | idempotence => 1
  | identity => 1
  | commutativity => 2
  | decreasing => 2
  | associativity => 3
  | monotonicity => 3

namespace MeetSemilattice

variable {α : Type}

/-- The instances of a law that fail on a list of values. -/
def failingInstances (l : MeetSemilattice α) (vs : List α) : Law → List (LawFailure α)
  | .idempotence =>
    (vs.filter fun a => !l.eq (l.meet a a) a).map fun a => .idempotence a (l.meet a a)
  | .identity =>
    (vs.filter fun a => !l.eq (l.meet l.top a) a).map fun a => .identity a (l.meet l.top a)
  | .commutativity =>
    ((vs ×ˢ vs).filter fun (a, b) => !l.eq (l.meet a b) (l.meet b a)).map fun (a, b) =>
      .commutativity a b (l.meet a b) (l.meet b a)
  | .decreasing =>
    (vs ×ˢ vs).flatMap fun (a, b) =>
      ([a, b].filter fun bound => !l.leq (l.meet a b) bound).map fun bound =>
        .decreasing a b (l.meet a b) bound
  | .associativity =>
    ((vs ×ˢ vs ×ˢ vs).filter fun (a, b, c) =>
        !l.eq (l.meet (l.meet a b) c) (l.meet a (l.meet b c))).map fun (a, b, c) =>
      .associativity a b c (l.meet (l.meet a b) c) (l.meet a (l.meet b c))
  | .monotonicity =>
    ((vs ×ˢ vs ×ˢ vs).filter fun (a, b, c) =>
        l.leq a b && !l.leq (l.meet a c) (l.meet b c)).map fun (a, b, c) =>
      .monotonicity a b c (l.meet a c) (l.meet b c)

variable {l : MeetSemilattice α} {config : LawCheckConfig} {vs : List α} {a b c : α}

/-- Nested loops visit the pairs of a product in its order. -/
theorem flatMap_product {β γ δ : Type} (xs : List β) (ys : List γ) (f : β × γ → List δ) :
    (xs ×ˢ ys).flatMap f = xs.flatMap fun x => ys.flatMap fun y => f (x, y) := by
  show (xs.flatMap fun x => ys.map (Prod.mk x)).flatMap f = _
  simp only [List.flatMap_assoc, List.flatMap_map]

/-- A loop that tests every value collects the failures of those that do not pass. -/
theorem flatMap_failureUnless {β : Type} (xs : List β) (test : β → Bool)
    (failure : β → LawFailure α) :
    (xs.flatMap fun x => failureUnless (test x) (failure x)) =
      (xs.filter fun x => !test x).map failure := by
  induction xs with
  | nil => rfl
  | cons x xs ih =>
    rw [List.flatMap_cons, ih]
    cases h : test x <;> simp [failureUnless, h]

@[simp] theorem failureUnless_true (failure : LawFailure α) : failureUnless true failure = [] := rfl

@[simp] theorem filter_failureUnless (p : LawFailure α → Bool) (test : Bool)
    (failure : LawFailure α) :
    (failureUnless test failure).filter p =
      if p failure then failureUnless test failure else [] := by
  cases test <;> cases h : p failure <;> simp [failureUnless, h]

/-- The loop over pairs as a list of tests: one that is not asked for counts as passed. -/
theorem failuresAtPair_eq :
    l.failuresAtPair config a b =
      failureUnless (l.eq (l.meet a b) (l.meet b a))
        (.commutativity a b (l.meet a b) (l.meet b a)) ++
      [a, b].flatMap fun bound =>
        failureUnless (!config.checkMonotonicity || l.leq (l.meet a b) bound)
          (.decreasing a b (l.meet a b) bound) := by
  cases h : config.checkMonotonicity <;> simp [failuresAtPair, failureUnless, h]

/-- The loop over triples as a list of tests. A pair that is not in order passes as well. -/
theorem failuresAtTriple_eq :
    l.failuresAtTriple config a b c =
      failureUnless
        (!config.checkAssociativity || l.eq (l.meet (l.meet a b) c) (l.meet a (l.meet b c)))
        (.associativity a b c (l.meet (l.meet a b) c) (l.meet a (l.meet b c))) ++
      failureUnless
        (!config.checkMonotonicity || !l.leq a b || l.leq (l.meet a c) (l.meet b c))
        (.monotonicity a b c (l.meet a c) (l.meet b c)) := by
  cases has : config.checkAssociativity <;> cases hm : config.checkMonotonicity <;>
    cases hab : l.leq a b <;> simp [failuresAtTriple, failureUnless, has, hm, hab]

/-- The loop over samples finds the failing instances of the laws about one sample. -/
theorem filter_failures_single (config : LawCheckConfig) (law : Law) :
    (vs.flatMap l.failuresAt).filter (·.law = law) =
      if law.arity = 1 ∧ config.asksFor law then l.failingInstances vs law else [] := by
  rw [List.filter_flatMap]
  cases law with
  | idempotence =>
    simp [failuresAt, LawFailure.law, LawCheckConfig.asksFor, failingInstances,
      flatMap_failureUnless]
  | identity =>
    simp [failuresAt, LawFailure.law, LawCheckConfig.asksFor, failingInstances,
      flatMap_failureUnless]
  | _ => exact List.flatMap_eq_nil_iff.2 fun a _ => by simp [failuresAt, LawFailure.law]

/-- The loop over pairs finds the failing instances of the laws about two samples. -/
theorem filter_failures_pair (law : Law) :
    (vs.flatMap fun a => vs.flatMap fun b => l.failuresAtPair config a b).filter (·.law = law) =
      if law.arity = 2 ∧ config.asksFor law then l.failingInstances vs law else [] := by
  rw [← flatMap_product vs vs fun x => l.failuresAtPair config x.1 x.2, List.filter_flatMap]
  cases law with
  | commutativity =>
    simp [failuresAtPair_eq, LawFailure.law, LawCheckConfig.asksFor, failingInstances,
      flatMap_failureUnless]
  | decreasing =>
    -- Two tests a pair, so the instances are lists of up to two for each pair.
    cases h : config.checkMonotonicity <;>
      simp [failuresAtPair_eq, LawFailure.law, LawCheckConfig.asksFor, failingInstances, h,
        ← flatMap_failureUnless]
  | _ => exact List.flatMap_eq_nil_iff.2 fun x _ => by simp [failuresAtPair_eq, LawFailure.law]

/-- The loop over triples finds the failing instances of the laws about three samples. -/
theorem filter_failures_triple (law : Law) :
    (vs.flatMap fun a => vs.flatMap fun b => vs.flatMap fun c =>
      l.failuresAtTriple config a b c).filter (·.law = law) =
      if law.arity = 3 ∧ config.asksFor law then l.failingInstances vs law else [] := by
  have hloop : (vs.flatMap fun a => vs.flatMap fun b => vs.flatMap fun c =>
      l.failuresAtTriple config a b c) =
      (vs ×ˢ vs ×ˢ vs).flatMap fun x => l.failuresAtTriple config x.1 x.2.1 x.2.2 := by
    simp only [flatMap_product]
  rw [hloop, List.filter_flatMap]
  cases law with
  | associativity =>
    cases h : config.checkAssociativity <;>
      simp [failuresAtTriple_eq, LawFailure.law, LawCheckConfig.asksFor, failingInstances, h,
        flatMap_failureUnless]
  | monotonicity =>
    cases h : config.checkMonotonicity <;>
      simp [failuresAtTriple_eq, LawFailure.law, LawCheckConfig.asksFor, failingInstances, h,
        flatMap_failureUnless]
  | _ => exact List.flatMap_eq_nil_iff.2 fun x _ => by simp [failuresAtTriple_eq, LawFailure.law]

/-- The loops over samples, pairs and triples find the failing instances of each law that is asked
for, and no others. -/
theorem filter_failuresOn (law : Law) :
    (l.failuresOn config vs).filter (·.law = law) =
      if config.asksFor law then l.failingInstances vs law else [] := by
  rw [failuresOn, List.filter_append, List.filter_append, filter_failures_single config,
    filter_failures_pair, filter_failures_triple]
  cases law <;> simp

/-- For a positive limit the report contains, law by law, the failing instances on the first unequal
samples, as many as the limit allows: each once, and only of laws that are asked for. An entry has
exactly one law, so there are no further entries. A limit that is not positive is refused, and
nothing is reported. -/
theorem verifyLaws_reports_failures [BEq α] (l : MeetSemilattice α) (samples : List α)
    (config : LawCheckConfig) :
    (0 < config.maxSamples → ∃ report, l.verifyLaws samples config = .ok report ∧
      ∀ law, report.filter (·.law = law) =
        if config.asksFor law then
          l.failingInstances ((samples.eraseDupsBy fun x kept => kept == x).take
            config.maxSamples.toNat) law
        else []) ∧
    (config.maxSamples ≤ 0 →
      l.verifyLaws samples config = .error ["max_samples must be positive"]) := by
  constructor
  · intro hpos
    refine ⟨l.failuresOn config (checkedSamples config samples), ?_, fun law => ?_⟩
    · have hvalid : config.problems = [] := if_neg (Int.not_le.2 hpos)
      rw [verifyLaws, hvalid]
    · rw [filter_failuresOn, checkedSamples, distinct_eq_eraseDupsBy]
  · intro hneg
    have hinvalid : config.problems = ["max_samples must be positive"] := if_pos hneg
    rw [verifyLaws, hinvalid]

/-- Subtraction on one sample: the limit counts 2 once, the difference 0 is below neither operand,
and associativity is not asked for. A limit of 0 is refused. -/
theorem verifyLaws_reports_failures_difference :
    (∃ report, (ofMeet (0 : Int) (· - ·)).verifyLaws [2, 2, 1] ⟨1, false, true⟩ = .ok report ∧
      report.filter (·.law = .decreasing) = [.decreasing 2 2 0 2, .decreasing 2 2 0 2] ∧
      report.filter (·.law = .associativity) = []) ∧
    (ofMeet (0 : Int) (· - ·)).verifyLaws [2, 2, 1] ⟨0, false, true⟩ =
      .error ["max_samples must be positive"] := by
  constructor
  · obtain ⟨report, hok, hlaw⟩ := (verifyLaws_reports_failures (ofMeet (0 : Int) (· - ·)) [2, 2, 1]
      ⟨1, false, true⟩).1 (by decide)
    exact ⟨report, hok, hlaw .decreasing, hlaw .associativity⟩
  · exact (verifyLaws_reports_failures _ _ ⟨0, false, true⟩).2 (by decide)

end MeetSemilattice

end FeatureLattice
