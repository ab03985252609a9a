import FeatureLattice.Proofs.LawReport
import FeatureLattice.Proofs.LawfulLattices

/-!
# The meet that drops nested sets

A meet can obey every law but one. The meet of two concrete contexts is emptied here if one is a
proper part of the other; apart from that it is intersection. So it is idempotent, commutative,
neutral to the top and decreasing everywhere. But it does not keep the order where something gets
lost: at a set of names that is not empty and a proper part of another one. On samples without such
a pair it is intersection, and there is nothing to find.
-/
namespace FeatureLattice

/-- A set of names that is not empty and a proper part of another one. -/
structure NameSet.Nested (s t : NameSet) : Prop where
  inhabited : ∃ x, x ∈ s
  subset : ∀ x ∈ s, x ∈ t
  ne : s ≠ t

namespace Context

variable {a b c d : Context} {s t : NameSet} {cs : List Context}

/-- Some concrete context on a list has a name and is a proper part of another one there. -/
def HasNested (cs : List Context) : Prop :=
  ∃ s t, concrete s ∈ cs ∧ concrete t ∈ cs ∧ s.Nested t

theorem concrete_le_concrete : concrete s ≤ concrete t ↔ ∀ x ∈ s, x ∈ t := by
  simp [le_iff_enables]

theorem concrete_eq_bot : concrete s = ⊥ ↔ ¬ ∃ x, x ∈ s := by
  have hbot (x : String) : (⊥ : Context).enables x = false := enables_empty x
  rw [← le_bot_iff, le_iff_enables]
  simp [hbot]

theorem dropNested_comm (c d : Context) : dropNested c d = dropNested d c := by
  have hinter : c.intersection d = d.intersection c := inf_comm c d
  simp only [dropNested, hinter, Bool.or_comm, bne_comm (a := c)]

/-- Of a proper part and the whole nothing is left. -/
theorem dropNested_of_le (h : concrete s ≤ concrete t) (hne : s ≠ t) :
    dropNested (concrete s) (concrete t) = ⊥ := by
  have hle : (concrete s).isSubsetOf (concrete t) = true := h
  have hempty : dropNested (concrete s) (concrete t) = empty := by
    simp [dropNested, isUniversal, hle, hne]
  exact hempty

theorem dropNested_of_not_le (hst : ¬ concrete s ≤ concrete t) (hts : ¬ concrete t ≤ concrete s) :
    dropNested (concrete s) (concrete t) = concrete s ⊓ concrete t := by
  have hst' : (concrete s).isSubsetOf (concrete t) = false := Bool.not_eq_true _ ▸ hst
  have hts' : (concrete t).isSubsetOf (concrete s) = false := Bool.not_eq_true _ ▸ hts
  have hinter : dropNested (concrete s) (concrete t) = (concrete s).intersection (concrete t) := by
    simp [dropNested, isUniversal, hst', hts']
  exact hinter

theorem dropNested_self (c : Context) : dropNested c c = c := by
  have hinter : dropNested c c = c.intersection c := by simp [dropNested]
  exact hinter.trans (inf_idem c)

/-- A proper part is lost by the meet, unless there is nothing in it. -/
theorem dropNested_eq_inf_or_nested (h : concrete s ≤ concrete t) :
    dropNested (concrete s) (concrete t) = concrete s ⊓ concrete t ∨
      dropNested (concrete s) (concrete t) = ⊥ ∧ s.Nested t := by
  by_cases hne : s = t
  · exact .inl (by rw [hne, dropNested_self, inf_idem])
  · by_cases hs : ∃ x, x ∈ s
    · exact .inr ⟨dropNested_of_le h hne, hs, concrete_le_concrete.1 h, hne⟩
    · refine .inl ?_
      rw [dropNested_of_le h hne, concrete_eq_bot.2 hs, bot_inf_eq]

/-- The meet is intersection, unless one of the two contexts is lost in the other. -/
theorem dropNested_cases (c d : Context) :
    dropNested c d = c ⊓ d ∨ dropNested c d = ⊥ ∧ ∃ s t, s.Nested t ∧
      (c = concrete s ∧ d = concrete t ∨ c = concrete t ∧ d = concrete s) := by
  cases c with
  | universal => exact .inl rfl
  | concrete s =>
    cases d with
    | universal => exact .inl rfl
    | concrete t =>
      by_cases hst : concrete s ≤ concrete t
      · exact (dropNested_eq_inf_or_nested hst).imp_right fun h =>
          ⟨h.1, s, t, h.2, .inl ⟨rfl, rfl⟩⟩
      · by_cases hts : concrete t ≤ concrete s
        · rw [dropNested_comm, inf_comm]
          exact (dropNested_eq_inf_or_nested hts).imp_right fun h =>
            ⟨h.1, t, s, h.2, .inr ⟨rfl, rfl⟩⟩
        · exact .inl (dropNested_of_not_le hst hts)

theorem dropNested_le_inf (c d : Context) : dropNested c d ≤ c ⊓ d := by
  rcases dropNested_cases c d with h | ⟨h, -⟩
  · exact h.le
  · rw [h]
    exact bot_le

/-- On contexts without nested ones the meet is intersection. -/
theorem dropNested_eq_inf (h : ¬ HasNested cs) (hc : c ∈ cs) (hd : d ∈ cs) :
    dropNested c d = c ⊓ d := by
  refine (dropNested_cases c d).resolve_right ?_
  rintro ⟨-, s, t, hnested, ⟨rfl, rfl⟩ | ⟨rfl, rfl⟩⟩
  · exact h ⟨s, t, hc, hd, hnested⟩
  · exact h ⟨s, t, hd, hc, hnested⟩

/-- The meet keeps the order on a list of contexts exactly if none of them are nested. -/
theorem dropNested_mono_iff :
    (∀ a ∈ cs, ∀ b ∈ cs, ∀ c ∈ cs, a ≤ b → dropNested a c ≤ dropNested b c) ↔ ¬ HasNested cs := by
  constructor
  · rintro hmono ⟨s, t, hs, ht, hnested⟩
    have hst : concrete s ≤ concrete t := concrete_le_concrete.2 hnested.subset
    have hle := hmono _ hs _ ht _ hs hst
    rw [dropNested_self, dropNested_comm, dropNested_of_le hst hnested.ne, le_bot_iff,
      concrete_eq_bot] at hle
    exact hle hnested.inhabited
  · intro h a ha b hb c hc hab
    rw [dropNested_eq_inf h ha hc, dropNested_eq_inf h hb hc]
    exact inf_le_inf_right c hab

@[simp] theorem meet_dropsNestedLattice (a b : Context) :
    dropsNestedLattice.meet a b = dropNested a b := rfl

theorem leq_dropsNestedLattice : dropsNestedLattice.leq a b = true ↔ a ≤ b := Iff.rfl

variable {config : LawCheckConfig} {law : Law}

/-- Of laws other than associativity only monotonicity can fail. -/
theorem failingInstances_dropsNested (h : law ≠ .monotonicity) (hassoc : law ≠ .associativity)
    (cs : List Context) : dropsNestedLattice.failingInstances cs law = [] := by
  have heq (a b : Context) : dropsNestedLattice.eq a b = (a == b) := rfl
  have htop (a : Context) : dropNested dropsNestedLattice.top a = a := rfl
  cases law with
  | idempotence => simp [MeetSemilattice.failingInstances, heq, dropNested_self]
  | identity => simp [MeetSemilattice.failingInstances, heq, htop]
  | commutativity => simp [MeetSemilattice.failingInstances, heq, dropNested_comm]
  | decreasing =>
    have hleft (a b : Context) : dropsNestedLattice.leq (dropNested a b) a = true :=
      leq_dropsNestedLattice.2 ((dropNested_le_inf a b).trans inf_le_left)
    have hright (a b : Context) : dropsNestedLattice.leq (dropNested a b) b = true :=
      leq_dropsNestedLattice.2 ((dropNested_le_inf a b).trans inf_le_right)
    simp [MeetSemilattice.failingInstances, hleft, hright]
  | associativity => exact absurd rfl hassoc
  | monotonicity => exact absurd rfl h

/-- The order is not kept somewhere exactly if there are nested contexts. -/
theorem failingInstances_monotonicity_ne_nil_iff :
    dropsNestedLattice.failingInstances cs .monotonicity ≠ [] ↔ HasNested cs := by
  rw [← not_iff_not, ← dropNested_mono_iff, not_not]
  simp only [MeetSemilattice.failingInstances, List.map_eq_nil_iff, List.filter_eq_nil_iff,
    Prod.forall, List.mem_product, Bool.and_eq_true, Bool.not_eq_true', ← Bool.not_eq_true,
    leq_dropsNestedLattice, meet_dropsNestedLattice, not_and, not_not]
  exact ⟨fun h a ha b hb c hc => h a b c ⟨ha, hb, hc⟩, fun h a b c hmem =>
    h a hmem.1 b hmem.2.1 c hmem.2.2⟩

/-- Unless associativity is asked for, nothing else is reported. -/
theorem law_of_mem_failuresOn (hassoc : config.checkAssociativity = false)
    {f : LawFailure Context} (hf : f ∈ dropsNestedLattice.failuresOn config cs) :
    f.law = .monotonicity := by
  by_contra hlaw
  have hmem : f ∈ (dropsNestedLattice.failuresOn config cs).filter (·.law = f.law) :=
    List.mem_filter.2 ⟨hf, decide_eq_true rfl⟩
  rw [MeetSemilattice.filter_failuresOn] at hmem
  by_cases hasked : f.law = .associativity
  · simp [hasked, LawCheckConfig.asksFor, hassoc] at hmem
  · simp [failingInstances_dropsNested hlaw hasked] at hmem

theorem failuresOn_dropsNested (hassoc : config.checkAssociativity = false) (cs : List Context) :
    dropsNestedLattice.failuresOn config cs =
      if config.checkMonotonicity then dropsNestedLattice.failingInstances cs .monotonicity
      else [] := by
  have hall : (dropsNestedLattice.failuresOn config cs).filter (·.law = .monotonicity) =
      dropsNestedLattice.failuresOn config cs :=
    List.filter_eq_self.2 fun f hf => decide_eq_true (law_of_mem_failuresOn hassoc hf)
  rw [← hall, MeetSemilattice.filter_failuresOn]
  rfl

/-- **The checker finds out the meet that drops nested sets exactly where it loses something.** If
associativity is not asked for, every failure that it reports is one of monotonicity, and there is
one exactly if among the samples that count, the first distinct ones up to the limit, there is a
concrete context with a name in it that is a proper part of another concrete one. If monotonicity is
not asked for either, it reports nothing. -/
theorem verifyLaws_dropsNested (samples : List Context) (config : LawCheckConfig)
    (hpos : 0 < config.maxSamples) (hassoc : config.checkAssociativity = false) :
    ∃ report, dropsNestedLattice.verifyLaws samples config = .ok report ∧
      (∀ f ∈ report, f.law = .monotonicity) ∧
      (config.checkMonotonicity = true →
        (report ≠ [] ↔ HasNested (samples.eraseDups.take config.maxSamples.toNat))) ∧
      (config.checkMonotonicity = false → report = []) := by
  have hvalid : config.problems = [] := if_neg (Int.not_le.2 hpos)
  have hok : dropsNestedLattice.verifyLaws samples config = .ok (dropsNestedLattice.failuresOn config
      (samples.eraseDups.take config.maxSamples.toNat)) := by
    rw [MeetSemilattice.verifyLaws, hvalid, MeetSemilattice.checkedSamples, distinct_eq_eraseDups]
  refine ⟨_, hok, fun f hf => law_of_mem_failuresOn hassoc hf, fun hmono => ?_, fun hmono => ?_⟩
  · rw [failuresOn_dropsNested hassoc, if_pos hmono]
    exact failingInstances_monotonicity_ne_nil_iff
  · rw [failuresOn_dropsNested hassoc, hmono]
    rfl

/-- Three samples, of which the second repeats the first. With a limit of 2 the name in the first is
lost in the third, which still counts. -/
theorem verifyLaws_dropsNested_repeated :
    ∃ report, dropsNestedLattice.verifyLaws [.of ["a"], .of ["a"], .of ["b", "a"]]
      ⟨2, false, true⟩ = .ok report ∧ report ≠ [] := by
  obtain ⟨report, hok, -, hiff, -⟩ := verifyLaws_dropsNested
    [.of ["a"], .of ["a"], .of ["b", "a"]] ⟨2, false, true⟩ (by decide) rfl
  refine ⟨report, hok, (hiff rfl).2 ⟨.ofList ["a"], .ofList ["b", "a"], ?_, ?_, ?_, ?_, ?_⟩⟩
  · decide
  · decide
  · exact ⟨"a", by simp⟩
  · simp
  · decide

end Context

end FeatureLattice
