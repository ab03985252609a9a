import FeatureLattice.Lattice.Laws
import FeatureLattice.Lattice.OnValues
import Mathlib.Data.List.TFAE
import Mathlib.Tactic.ByContra
import Mathlib.Tactic.TFAE

/-!
# What an empty report certifies

A run of the law checker without failures says that each checked law holds at all samples. When
the samples are a whole carrier (closed under the meet, the top among them) and the order is the
default one, this is as good as a proof: the samples form a meet-semilattice. Idempotence, identity
and commutativity are always checked. Associativity on top of them is one complete set of laws,
decrease with preservation of the order is another, so each of the two optional families suffices.
-/
namespace FeatureLattice.MeetSemilattice

variable {α : Type}

/-- The laws that a configuration asks for hold on a list of values. -/
structure Passes (l : MeetSemilattice α) (config : LawCheckConfig) (vs : List α) : Prop where
  idempotent : ∀ a ∈ vs, l.eq (l.meet a a) a = true
  identity : ∀ a ∈ vs, l.eq (l.meet l.top a) a = true
  commutative : ∀ a ∈ vs, ∀ b ∈ vs, l.eq (l.meet a b) (l.meet b a) = true
  decreasing : config.checkMonotonicity = true → ∀ a ∈ vs, ∀ b ∈ vs,
    l.leq (l.meet a b) a = true ∧ l.leq (l.meet a b) b = true
  associative : config.checkAssociativity = true → ∀ a ∈ vs, ∀ b ∈ vs, ∀ c ∈ vs,
    l.eq (l.meet (l.meet a b) c) (l.meet a (l.meet b c)) = true
  monotone : config.checkMonotonicity = true → ∀ a ∈ vs, ∀ b ∈ vs, ∀ c ∈ vs,
    l.leq a b = true → l.leq (l.meet a c) (l.meet b c) = true

@[simp] theorem failureUnless_eq_nil {test : Bool} {failure : LawFailure α} :
    failureUnless test failure = [] ↔ test = true := by
  cases test <;> simp [failureUnless]

theorem failuresAt_eq_nil {l : MeetSemilattice α} {a : α} :
    l.failuresAt a = [] ↔ l.eq (l.meet a a) a = true ∧ l.eq (l.meet l.top a) a = true := by
  simp [failuresAt]

theorem failuresAtPair_eq_nil {l : MeetSemilattice α} {config : LawCheckConfig} {a b : α} :
    l.failuresAtPair config a b = [] ↔
      l.eq (l.meet a b) (l.meet b a) = true ∧ (config.checkMonotonicity = true →
        l.leq (l.meet a b) a = true ∧ l.leq (l.meet a b) b = true) := by
  cases h : config.checkMonotonicity <;> simp [failuresAtPair, h]

theorem failuresAtTriple_eq_nil {l : MeetSemilattice α} {config : LawCheckConfig} {a b c : α} :
    l.failuresAtTriple config a b c = [] ↔
      (config.checkAssociativity = true →
        l.eq (l.meet (l.meet a b) c) (l.meet a (l.meet b c)) = true) ∧
      (config.checkMonotonicity = true → l.leq a b = true →
        l.leq (l.meet a c) (l.meet b c) = true) := by
  cases ha : config.checkAssociativity <;> cases hm : config.checkMonotonicity <;>
    cases hab : l.leq a b <;> simp [failuresAtTriple, ha, hm, hab]

/-- The loops over samples, pairs and triples leave no instance out. -/
theorem failuresOn_eq_nil_iff {l : MeetSemilattice α} {config : LawCheckConfig} {vs : List α} :
    l.failuresOn config vs = [] ↔ l.Passes config vs := by
  simp only [failuresOn, List.append_eq_nil_iff, List.flatMap_eq_nil_iff, failuresAt_eq_nil,
    failuresAtPair_eq_nil, failuresAtTriple_eq_nil]
  constructor
  · rintro ⟨⟨hone, hpair⟩, htriple⟩
    exact {
      idempotent := fun a ha => (hone a ha).1
      identity := fun a ha => (hone a ha).2
      commutative := fun a ha b hb => (hpair a ha b hb).1
      decreasing := fun hm a ha b hb => (hpair a ha b hb).2 hm
      associative := fun has a ha b hb c hc => (htriple a ha b hb c hc).1 has
      monotone := fun hm a ha b hb c hc => (htriple a ha b hb c hc).2 hm }
  · intro h
    refine ⟨⟨?_, ?_⟩, ?_⟩
    · intro a ha
      exact ⟨h.idempotent a ha, h.identity a ha⟩
    · intro a ha b hb
      exact ⟨h.commutative a ha b hb, fun hm => h.decreasing hm a ha b hb⟩
    · intro a ha b hb c hc
      exact ⟨fun has => h.associative has a ha b hb c hc, fun hm => h.monotone hm a ha b hb c hc⟩

/-- An empty report needs a valid configuration. -/
theorem verifyLaws_eq_ok_nil_iff [BEq α] {l : MeetSemilattice α} {samples : List α}
    {config : LawCheckConfig} :
    l.verifyLaws samples config = .ok [] ↔
      0 < config.maxSamples ∧ l.Passes config (checkedSamples config samples) := by
  by_cases h : config.maxSamples ≤ 0
  · have hn : ¬ 0 < config.maxSamples := by omega
    simp [verifyLaws, LawCheckConfig.problems, h, hn]
  · have hp : 0 < config.maxSamples := by omega
    simp [verifyLaws, LawCheckConfig.problems, h, hp, failuresOn_eq_nil_iff]

@[simp] theorem top_ofMeet [BEq α] (top : α) (meet : α → α → α) :
    (ofMeet top meet).top = top := rfl

@[simp] theorem meet_ofMeet [BEq α] (top : α) (meet : α → α → α) :
    (ofMeet top meet).meet = meet := rfl

/-- A list of values is a carrier: it has the top, is closed under the meet, and on it the equality
test is plain equality. -/
structure IsCarrier [BEq α] (top : α) (meet : α → α → α) (vs : List α) : Prop where
  plain : ∀ a ∈ vs, ∀ b ∈ vs, ((a == b) = true ↔ a = b)
  top_mem : top ∈ vs
  meet_mem : ∀ a ∈ vs, ∀ b ∈ vs, meet a b ∈ vs

/-- On a list of values the order is partial, the top is the greatest element, and the meet of two
values is their greatest lower bound. -/
structure IsMeetOrder (l : MeetSemilattice α) (vs : List α) : Prop where
  refl : ∀ a ∈ vs, l.leq a a = true
  antisymm : ∀ a ∈ vs, ∀ b ∈ vs, l.leq a b = true → l.leq b a = true → a = b
  trans : ∀ a ∈ vs, ∀ b ∈ vs, ∀ c ∈ vs, l.leq a b = true → l.leq b c = true → l.leq a c = true
  le_top : ∀ a ∈ vs, l.leq a l.top = true
  meet_le_left : ∀ a ∈ vs, ∀ b ∈ vs, l.leq (l.meet a b) a = true
  meet_le_right : ∀ a ∈ vs, ∀ b ∈ vs, l.leq (l.meet a b) b = true
  le_meet : ∀ a ∈ vs, ∀ b ∈ vs, ∀ c ∈ vs, l.leq c a = true → l.leq c b = true →
    l.leq c (l.meet a b) = true

namespace IsCarrier

variable [BEq α] {top : α} {meet : α → α → α} {vs : List α} {config : LawCheckConfig}

/-- In the default order of a carrier, `a` is below `b` when their meet is `a`. -/
theorem leq_iff (hc : IsCarrier top meet vs) {a b : α} (ha : a ∈ vs) (hb : b ∈ vs) :
    (ofMeet top meet).leq a b = true ↔ meet a b = a :=
  hc.plain _ (hc.meet_mem a ha b hb) a ha

theorem meet_self (hc : IsCarrier top meet vs) (h : (ofMeet top meet).Passes config vs)
    {a : α} (ha : a ∈ vs) : meet a a = a :=
  (hc.plain _ (hc.meet_mem a ha a ha) a ha).1 (h.idempotent a ha)

theorem meet_comm (hc : IsCarrier top meet vs) (h : (ofMeet top meet).Passes config vs)
    {a b : α} (ha : a ∈ vs) (hb : b ∈ vs) : meet a b = meet b a :=
  (hc.plain _ (hc.meet_mem a ha b hb) _ (hc.meet_mem b hb a ha)).1 (h.commutative a ha b hb)

theorem top_meet (hc : IsCarrier top meet vs) (h : (ofMeet top meet).Passes config vs)
    {a : α} (ha : a ∈ vs) : meet top a = a :=
  (hc.plain _ (hc.meet_mem top hc.top_mem a ha) a ha).1 (h.identity a ha)

theorem meet_assoc (hc : IsCarrier top meet vs) (h : (ofMeet top meet).Passes config vs)
    (hassoc : config.checkAssociativity = true) {a b c : α} (ha : a ∈ vs) (hb : b ∈ vs)
    (hcm : c ∈ vs) : meet (meet a b) c = meet a (meet b c) :=
  (hc.plain _ (hc.meet_mem _ (hc.meet_mem a ha b hb) c hcm)
    _ (hc.meet_mem a ha _ (hc.meet_mem b hb c hcm))).1 (h.associative hassoc a ha b hb c hcm)

/-- Associativity, with the laws that are always checked, brings decrease and preservation of the
order with it. -/
theorem passes_monotone_of_associative (hc : IsCarrier top meet vs)
    (h : (ofMeet top meet).Passes config vs) (hassoc : config.checkAssociativity = true)
    (config' : LawCheckConfig) (hoff : config'.checkAssociativity = false) :
    (ofMeet top meet).Passes config' vs where
  idempotent := h.idempotent
  identity := h.identity
  commutative := h.commutative
  decreasing _ a ha b hb := by
    have hab := hc.meet_mem a ha b hb
    constructor
    · rw [meet_ofMeet, hc.leq_iff hab ha, hc.meet_comm h hab ha,
        ← hc.meet_assoc h hassoc ha ha hb, hc.meet_self h ha]
    · rw [meet_ofMeet, hc.leq_iff hab hb, hc.meet_assoc h hassoc ha hb hb, hc.meet_self h hb]
  associative hon := by simp [hoff] at hon
  monotone _ a ha b hb c hcm hab := by
    have hac := hc.meet_mem a ha c hcm
    have hbc := hc.meet_mem b hb c hcm
    rw [hc.leq_iff ha hb] at hab
    rw [meet_ofMeet, hc.leq_iff hac hbc]
    calc meet (meet a c) (meet b c) = meet a (meet c (meet b c)) :=
          hc.meet_assoc h hassoc ha hcm hbc
      _ = meet a (meet b (meet c c)) := by
          rw [hc.meet_comm h hcm hbc, hc.meet_assoc h hassoc hb hcm hcm]
      _ = meet (meet a b) c := by rw [hc.meet_self h hcm, hc.meet_assoc h hassoc ha hb hcm]
      _ = meet a c := by rw [hab]

/-- If `a` is below `b` and `b` below `c`, then preservation of the order puts `a` below its meet
with `c`, and decrease puts that meet below `a`: they are equal. -/
theorem leq_trans_of_monotone (hc : IsCarrier top meet vs)
    (h : (ofMeet top meet).Passes config vs) (hmono : config.checkMonotonicity = true)
    {a b c : α} (ha : a ∈ vs) (hb : b ∈ vs) (hcm : c ∈ vs)
    (hab : (ofMeet top meet).leq a b = true) (hbc : (ofMeet top meet).leq b c = true) :
    (ofMeet top meet).leq a c = true := by
  have hac := hc.meet_mem a ha c hcm
  have hmoved : (ofMeet top meet).leq (meet b a) (meet c a) = true :=
    h.monotone hmono b hb c hcm a ha hbc
  have hback : (ofMeet top meet).leq (meet a c) a = true := (h.decreasing hmono a ha c hcm).1
  rw [hc.leq_iff ha hb] at hab
  rw [hc.meet_comm h hb ha, hab, hc.meet_comm h hcm ha, hc.leq_iff ha hac] at hmoved
  rw [hc.leq_iff hac ha, hc.meet_comm h hac ha, hmoved] at hback
  rw [hc.leq_iff ha hcm, ← hback]

/-- Decrease and preservation of the order, with the laws that are always checked, make the order
a meet order; associativity need not be checked. -/
theorem isMeetOrder_of_monotone (hc : IsCarrier top meet vs)
    (h : (ofMeet top meet).Passes config vs) (hmono : config.checkMonotonicity = true) :
    (ofMeet top meet).IsMeetOrder vs where
  refl a ha := (hc.leq_iff ha ha).2 (hc.meet_self h ha)
  antisymm a ha b hb hab hba := by
    rw [hc.leq_iff ha hb] at hab
    rw [hc.leq_iff hb ha] at hba
    rw [← hab, hc.meet_comm h ha hb, hba]
  trans a ha b hb c hcm hab hbc := hc.leq_trans_of_monotone h hmono ha hb hcm hab hbc
  le_top a ha := by
    rw [top_ofMeet, hc.leq_iff ha hc.top_mem, hc.meet_comm h ha hc.top_mem, hc.top_meet h ha]
  meet_le_left a ha b hb := (h.decreasing hmono a ha b hb).1
  meet_le_right a ha b hb := (h.decreasing hmono a ha b hb).2
  le_meet a ha b hb c hcm hca hcb := by
    have hmoved : (ofMeet top meet).leq (meet c b) (meet a b) = true :=
      h.monotone hmono c hcm a ha b hb hca
    rw [hc.leq_iff hcm hb] at hcb
    rwa [hcb] at hmoved

/-- In a meet order every law holds. -/
theorem passes_of_isMeetOrder (hc : IsCarrier top meet vs)
    (h : (ofMeet top meet).IsMeetOrder vs) (config : LawCheckConfig) :
    (ofMeet top meet).Passes config vs where
  idempotent a ha := (hc.plain _ (hc.meet_mem a ha a ha) a ha).2 <|
    (hc.leq_iff ha ha).1 (h.refl a ha)
  identity a ha := by
    have hta := hc.meet_mem top hc.top_mem a ha
    refine (hc.plain _ hta a ha).2 (h.antisymm _ hta a ha ?_ ?_)
    · exact h.meet_le_right top hc.top_mem a ha
    · exact h.le_meet top hc.top_mem a ha a ha (h.le_top a ha) (h.refl a ha)
  commutative a ha b hb := by
    have hle : ∀ x ∈ vs, ∀ y ∈ vs, (ofMeet top meet).leq (meet x y) (meet y x) = true := by
      intro x hx y hy
      exact h.le_meet y hy x hx _ (hc.meet_mem x hx y hy) (h.meet_le_right x hx y hy)
        (h.meet_le_left x hx y hy)
    have hab := hc.meet_mem a ha b hb
    have hba := hc.meet_mem b hb a ha
    exact (hc.plain _ hab _ hba).2 (h.antisymm _ hab _ hba (hle a ha b hb) (hle b hb a ha))
  decreasing _ a ha b hb := ⟨h.meet_le_left a ha b hb, h.meet_le_right a ha b hb⟩
  associative _ a ha b hb c hcm := by
    have hab := hc.meet_mem a ha b hb
    have hbc := hc.meet_mem b hb c hcm
    have hl := hc.meet_mem _ hab c hcm
    have hr := hc.meet_mem a ha _ hbc
    have hlab := h.meet_le_left _ hab c hcm
    have hrbc := h.meet_le_right a ha _ hbc
    refine (hc.plain _ hl _ hr).2 (h.antisymm _ hl _ hr ?_ ?_)
    · refine h.le_meet a ha _ hbc _ hl ?_ (h.le_meet b hb c hcm _ hl ?_ ?_)
      · exact h.trans _ hl _ hab a ha hlab (h.meet_le_left a ha b hb)
      · exact h.trans _ hl _ hab b hb hlab (h.meet_le_right a ha b hb)
      · exact h.meet_le_right _ hab c hcm
    · refine h.le_meet _ hab c hcm _ hr (h.le_meet a ha b hb _ hr ?_ ?_) ?_
      · exact h.meet_le_left a ha _ hbc
      · exact h.trans _ hr _ hbc b hb hrbc (h.meet_le_left b hb c hcm)
      · exact h.trans _ hr _ hbc c hcm hrbc (h.meet_le_right b hb c hcm)
  monotone _ a ha b hb c hcm hab := by
    have hac := hc.meet_mem a ha c hcm
    refine h.le_meet b hb c hcm _ hac ?_ (h.meet_le_right a ha c hcm)
    exact h.trans _ hac a ha b hb (h.meet_le_left a ha c hcm) hab

end IsCarrier

/-- On a carrier, a full check, a check without preservation of the order and a check without
associativity agree, and they pass exactly the meet orders. The carrier is what is checked of the
samples, so the limit must not cut it short. -/
theorem verifyLaws_certifies [BEq α] (top : α) (meet : α → α → α) (samples : List α) (limit : Int)
    (hc : IsCarrier top meet (checkedSamples { maxSamples := limit } samples)) :
    List.TFAE [
      (ofMeet top meet).verifyLaws samples ⟨limit, true, true⟩ = .ok [],
      (ofMeet top meet).verifyLaws samples ⟨limit, true, false⟩ = .ok [],
      (ofMeet top meet).verifyLaws samples ⟨limit, false, true⟩ = .ok [],
      (ofMeet top meet).IsMeetOrder (checkedSamples { maxSamples := limit } samples)] := by
  -- The checked samples depend on the limit only, and there are some, so the limit is valid.
  have hpos : 0 < limit := by
    by_contra hn
    have hz : limit.toNat = 0 := by omega
    have htop := hc.top_mem
    simp [checkedSamples, hz] at htop
  have hiff (associativity monotonicity : Bool) :
      (ofMeet top meet).verifyLaws samples ⟨limit, associativity, monotonicity⟩ = .ok [] ↔
        (ofMeet top meet).Passes ⟨limit, associativity, monotonicity⟩
          (checkedSamples { maxSamples := limit } samples) := by
    rw [verifyLaws_eq_ok_nil_iff]
    exact and_iff_right hpos
  simp only [hiff]
  tfae_have 1 → 2 := fun h =>
    { h with decreasing := fun hon => by simp at hon, monotone := fun hon => by simp at hon }
  tfae_have 2 → 3 := fun h => hc.passes_monotone_of_associative h rfl _ rfl
  tfae_have 3 → 4 := fun h => hc.isMeetOrder_of_monotone h rfl
  tfae_have 4 → 1 := fun h => hc.passes_of_isMeetOrder h _
  tfae_finish

/-- The subsets of a set of two elements under intersection, as an operation table. -/
def diamond : List (List Int) := [[0, 0, 0, 0], [0, 1, 0, 1], [0, 0, 2, 2], [0, 1, 2, 3]]

/-- A check of the diamond without associativity, on samples with repetitions, certifies its
order. -/
theorem verifyLaws_certifies_diamond :
    IsCarrier 3 (NamedLattice.entry diamond)
      (checkedSamples { maxSamples := 4 } [3, 1, 3, 2, 0, 1]) ∧
    (ofMeet 3 (NamedLattice.entry diamond)).IsMeetOrder [3, 1, 2, 0] := by
  have hc : IsCarrier 3 (NamedLattice.entry diamond)
      (checkedSamples { maxSamples := 4 } [3, 1, 3, 2, 0, 1]) :=
    ⟨by decide, by decide, by decide⟩
  exact ⟨hc, ((verifyLaws_certifies 3 (NamedLattice.entry diamond) _ 4 hc).out 2 3).1 rfl⟩

end FeatureLattice.MeetSemilattice
