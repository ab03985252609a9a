import FeatureLattice.Proofs.ContextLattice
import Mathlib.Data.Set.Card

/-!
# Descents of contexts

There are infinitely many contexts between the universal context and the empty one, and still no
descent goes on for ever. The first step may lead from the universal context to a concrete one as
large as it likes. From then on each step loses a name, and the names of a concrete context can be
counted. So a solver whose facts only go down comes to rest, and so do the meets of longer and
longer beginnings of a sequence.
-/
namespace FeatureLattice

section Drops

variable {f : ℕ → ℕ}

/-- Values that never rise are different after different drops. -/
theorem injOn_drops (hf : Antitone f) : Set.InjOn (fun k => f (k + 1)) {k | f (k + 1) < f k} := by
  have hlt : ∀ k l, k < l → f (l + 1) < f l → f (l + 1) < f (k + 1) :=
    fun k l hkl hl => hl.trans_le (hf hkl)
  intro k hk l hl he
  apply le_antisymm
  · exact not_lt.1 fun hlk => (hlt l k hlk hk).ne he
  · exact not_lt.1 fun hkl => (hlt k l hkl hl).ne' he

/-- Numbers that never rise drop at most as often as the first one allows. -/
theorem finite_drops (hf : Antitone f) :
    {k | f (k + 1) < f k}.Finite ∧ {k | f (k + 1) < f k}.ncard ≤ f 0 := by
  have hmaps : Set.MapsTo (fun k => f (k + 1)) {k | f (k + 1) < f k} (Finset.range (f 0)) := by
    intro k hk
    have h0 : f k ≤ f 0 := hf (Nat.zero_le k)
    have hdrop : f (k + 1) < f k := hk
    simp only [Finset.coe_range, Set.mem_Iio]
    omega
  have hfinite : (Finset.range (f 0) : Set ℕ).Finite := Finset.finite_toSet _
  constructor
  · exact Set.Finite.of_injOn hmaps (injOn_drops hf) hfinite
  · have hcard := Set.ncard_le_ncard_of_injOn _ hmaps (injOn_drops hf) hfinite
    rwa [Set.ncard_coe_finset, Finset.card_range] at hcard

end Drops

namespace Context

variable {c d : Context} {s : NameSet} {x : ℕ → Context}

/-- The test for a strict step down. -/
theorem isSubsetOf_and_bne_iff : (c.isSubsetOf d && c != d) = true ↔ c < d := by
  rw [Bool.and_eq_true, bne_iff_ne, lt_iff_le_and_ne]
  rfl

/-- The rank of a context: the number of names of a concrete one, and infinity for the universal
one. -/
def rank : Context → WithTop ℕ
  | universal => ⊤
  | concrete s => (s.size : ℕ)

theorem size_lt_of_lt {t : NameSet} (h : concrete s < concrete t) : s.size < t.size := by
  have hheight : (concrete s).height s.size < (concrete t).height s.size :=
    height_lt h fun _ he => (concrete.inj he) ▸ le_rfl
  exact hheight

/-- A step down leads to a concrete context. -/
theorem exists_eq_concrete_of_lt (h : c < d) : ∃ s, c = concrete s := by
  cases c with
  | universal => exact absurd (le_top (a := d)) h.not_ge
  | concrete s => exact ⟨s, rfl⟩

theorem rank_lt (h : c < d) : c.rank < d.rank := by
  obtain ⟨s, rfl⟩ := exists_eq_concrete_of_lt h
  cases d with
  | universal => exact WithTop.coe_lt_top s.size
  | concrete t => exact WithTop.coe_lt_coe.2 (size_lt_of_lt h)

/-- No descent of contexts goes on for ever. -/
theorem wellFounded_strict :
    WellFounded fun c d : Context => (c.isSubsetOf d && c != d) = true :=
  Subrelation.wf (fun h => rank_lt (isSubsetOf_and_bne_iff.1 h)) (InvImage.wf rank wellFounded_lt)

/-- Each context of a descent has fewer names than the one before. -/
theorem length_le_of_descent {s : NameSet} {below : List Context}
    (h : List.IsChain (fun c d => (d.isSubsetOf c && d != c) = true) (concrete s :: below)) :
    (concrete s :: below).length ≤ s.size + 1 := by
  induction below generalizing s with
  | nil => simp
  | cons d below ih =>
    obtain ⟨hd, hbelow⟩ := List.isChain_cons_cons.1 h
    have hlt : d < concrete s := isSubsetOf_and_bne_iff.1 hd
    obtain ⟨t, rfl⟩ := exists_eq_concrete_of_lt hlt
    have hsize := size_lt_of_lt hlt
    have hlength := ih hbelow
    simp only [List.length_cons] at hlength ⊢
    omega

/-- The meets of the first so many contexts of a sequence. -/
def meets (x : ℕ → Context) : ℕ → Context
  | 0 => lattice.top
  | k + 1 => lattice.meet (meets x k) (x k)

/-- The steps at which one more context changes the meet. -/
def changes (x : ℕ → Context) : Set ℕ := {k | (meets x (k + 1) != meets x k) = true}

theorem meets_succ_le (x : ℕ → Context) (k : ℕ) : meets x (k + 1) ≤ meets x k :=
  inf_le_left (a := meets x k)

theorem antitone_meets (x : ℕ → Context) : Antitone (meets x) :=
  antitone_nat_of_succ_le (meets_succ_le x)

theorem mem_changes_iff {k : ℕ} : k ∈ changes x ↔ meets x (k + 1) < meets x k := by
  rw [changes, Set.mem_ofPred_eq, bne_iff_ne, lt_iff_le_and_ne]
  exact (and_iff_right (meets_succ_le x k)).symm

/-- Universal contexts leave the meet universal. -/
theorem meets_eq_universal {k : ℕ} (h : ∀ i < k, x i = universal) :
    meets x k = universal := by
  induction k with
  | zero => rfl
  | succ k ih =>
    rw [meets, ih fun i hi => h i (Nat.lt_succ_of_lt hi), h k (Nat.lt_succ_self k)]
    rfl

/-- From the first concrete context on, a meet has no other names than that context. -/
theorem size_le_of_meets {j k : ℕ} {t : NameSet} (hj : x j = concrete s)
    (hfirst : ∀ i < j, x i = universal) (hk : meets x k = concrete t) :
    t.size ≤ s.size := by
  have hmeet : meets x (j + 1) = concrete s := by
    rw [meets, meets_eq_universal hfirst, hj]
    rfl
  have hjk : j + 1 ≤ k := by
    apply Nat.lt_of_not_le
    intro hle
    have huniversal := meets_eq_universal (k := k) fun i hi => hfirst i (hi.trans_le hle)
    simp [hk] at huniversal
  have hle : concrete t ≤ concrete s := hk ▸ hmeet ▸ antitone_meets x hjk
  exact NameSet.size_le fun y hy =>
    enables_concrete.1 (le_iff_enables.1 hle y (enables_concrete.2 hy))

/-- The heights of the meets never rise, and each change lowers them. -/
theorem changes_of_first_concrete {j : ℕ} (hj : x j = concrete s)
    (hfirst : ∀ i < j, x i = universal) :
    (changes x).Finite ∧ (changes x).ncard ≤ 1 + s.size := by
  have hdrop : ∀ k, k ∈ changes x →
      (meets x (k + 1)).height s.size < (meets x k).height s.size := by
    intro k hk
    apply height_lt (mem_changes_iff.1 hk)
    exact fun t ht => size_le_of_meets hj hfirst ht
  have hantitone : Antitone fun k => (meets x k).height s.size := by
    apply antitone_nat_of_succ_le
    intro k
    by_cases hk : k ∈ changes x
    · exact (hdrop k hk).le
    · have hsame : meets x (k + 1) = meets x k :=
        eq_of_le_of_not_lt (meets_succ_le x k) (mt mem_changes_iff.2 hk)
      rw [hsame]
  obtain ⟨hfinite, hcard⟩ := finite_drops hantitone
  have hsub : changes x ⊆
      {k | (meets x (k + 1)).height s.size < (meets x k).height s.size} := hdrop
  have hstart : (meets x 0).height s.size = s.size + 1 := rfl
  have hle := Set.ncard_le_ncard hsub hfinite
  exact ⟨hfinite.subset hsub, by omega⟩

/-- **Meets come to rest.** In a sequence of contexts only finitely many change the meet of those
before them: none if all are universal, and otherwise at most one more than the first concrete one
has names. The strict order of contexts is well-founded, and a descent from a concrete context has
at most one context more than that context has names. -/
theorem meets_stabilise :
    (∀ x : ℕ → Context, (changes x).Finite ∧
      ((∀ k, x k = universal) → changes x = ∅) ∧
      ∀ j s, x j = concrete s → (∀ i < j, x i = universal) →
        (changes x).ncard ≤ 1 + s.size) ∧
    WellFounded (fun c d : Context => (c.isSubsetOf d && c != d) = true) ∧
    ∀ (s : NameSet) (below : List Context),
      List.IsChain (fun c d => (d.isSubsetOf c && d != c) = true) (concrete s :: below) →
      (concrete s :: below).length ≤ s.size + 1 := by
  refine ⟨fun x => ?_, wellFounded_strict, fun _ _ => length_le_of_descent⟩
  have hnone : (∀ k, x k = universal) → changes x = ∅ := by
    intro h
    ext k
    have hsame : meets x (k + 1) = meets x k := by
      rw [meets_eq_universal fun i _ => h i, meets_eq_universal fun i _ => h i]
    simp [mem_changes_iff, hsame]
  refine ⟨?_, hnone, fun j s hj hfirst => (changes_of_first_concrete hj hfirst).2⟩
  by_cases h : ∀ k, x k = universal
  · rw [hnone h]
    exact Set.finite_empty
  · -- The first place where the context is not universal.
    rw [not_forall] at h
    classical
    have hfirst : ∀ i < Nat.find h, x i = universal :=
      fun i hi => not_not.1 (Nat.find_min h hi)
    cases hj : x (Nat.find h) with
    | universal => exact absurd hj (Nat.find_spec h)
    | concrete s => exact (changes_of_first_concrete hj hfirst).1

/-- A sequence that starts with the universal context and then loses a name. -/
def lateNames : ℕ → Context
  | 0 => universal
  | 1 => of ["net", "ui"]
  | _ => of ["ui"]

/-- The meets of the sequence change at most three times, and a descent from its second context has
at most three members. -/
theorem meets_stabilise_lateNames :
    lateNames 1 = concrete (NameSet.ofList ["net", "ui"]) ∧ (∀ i < 1, lateNames i = universal) ∧
    (changes lateNames).ncard ≤ 3 ∧
    List.IsChain (fun c d : Context => (d.isSubsetOf c && d != c) = true)
      [of ["net", "ui"], of ["ui"], empty] ∧
    [of ["net", "ui"], of ["ui"], empty].length ≤ (NameSet.ofList ["net", "ui"]).size + 1 := by
  have hsecond : lateNames 1 = concrete (NameSet.ofList ["net", "ui"]) := rfl
  have hfirst : ∀ i < 1, lateNames i = universal := by
    intro i hi
    obtain rfl : i = 0 := by omega
    rfl
  have hdescent : List.IsChain (fun c d : Context => (d.isSubsetOf c && d != c) = true)
      [of ["net", "ui"], of ["ui"], empty] := by
    decide
  obtain ⟨hchanges, -, hlength⟩ := meets_stabilise
  have hcard := (hchanges lateNames).2.2 1 _ hsecond hfirst
  have hsize : (NameSet.ofList ["net", "ui"]).size = 2 := by decide
  exact ⟨hsecond, hfirst, by omega, hdescent, hlength _ _ hdescent⟩

end Context

end FeatureLattice
