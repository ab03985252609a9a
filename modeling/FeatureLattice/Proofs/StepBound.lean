import FeatureLattice.Proofs.ContextLattice
import FeatureLattice.Proofs.WorkQueue
import Mathlib.Algebra.BigOperators.Ring.List
import Mathlib.Algebra.Ring.Nat

/-!
# How long a run lasts

The queue of the solver runs empty after a number of steps that the graph and its names determine.
No fact rises, since the equation of a node never asks for more than the node has. A fact that has
come down from the universal context holds only names that nodes mention, so after the change that
leaves the universal context a fact changes at most once for each such name. Each change puts the
successors of its node into the queue, and pays for them with the height that it loses.
-/
namespace FeatureLattice

namespace FlowGraph

variable {g : FlowGraph} {n : String} {targets : List String}

/-- The number of listed successors, repetitions included. -/
def edgeCount (g : FlowGraph) : Nat := (g.nodes.map fun node => node.2.length).sum

theorem successors_of_mem (h : (n, targets) ∈ g.nodes) : g.successors n = targets := by
  rw [successors, lookup_of_mem g.nodup h, Option.getD_some]

/-- Every listed successor belongs to one node. -/
theorem sum_length_successors (g : FlowGraph) :
    (g.names.map fun n => (g.successors n).length).sum = g.edgeCount := by
  rw [names, List.map_map, edgeCount]
  refine congrArg List.sum (List.map_congr_left fun node hnode => ?_)
  rw [Function.comp_apply, successors_of_mem hnode]

end FlowGraph

namespace MustAnalysis

variable {a : MustAnalysis} {facts facts' : List (String × Context)} {p q : Progress}
  {node n x : String} {c old : Context} {waiting : List String}

/-! ### Facts come down -/

/-- The facts of one table are below those of another. -/
def Below (facts facts' : List (String × Context)) : Prop :=
  ∀ n d, facts'.lookup n = some d → ∃ c, facts.lookup n = some c ∧ c ≤ d

/-- Lower facts before a node make for a lower fact after it. -/
theorem outgoing_mono (h : Below facts facts') :
    a.outgoing Context.lattice facts n ≤ a.outgoing Context.lattice facts' n := by
  rw [Context.le_iff_enables]
  intro x hx
  rw [enables_outgoing] at hx ⊢
  refine hx.imp_right ?_
  rintro ⟨hne, hpred⟩
  refine ⟨hne, fun m hm d hd => ?_⟩
  obtain ⟨c, hc, hcd⟩ := h m d hd
  exact Context.le_iff_enables.1 hcd x (hpred m hm c hc)

/-- The equation of a node asks for no more than the fact of the node. -/
def Descending (a : MustAnalysis) (p : Progress) : Prop :=
  ∀ n c, p.facts.lookup n = some c → a.outgoing Context.lattice p.facts n ≤ c

theorem Descending.start (a : MustAnalysis) : a.Descending (a.start Context.lattice) := by
  intro n c hc
  rw [lookup_start hc]
  exact le_top

theorem Descending.below (hd : a.Descending p)
    (h : a.step Context.lattice p node waiting = .ok q) : Below q.facts p.facts := by
  intro n d hn
  obtain ⟨old, hold, -, ⟨-, hf, -⟩ | ⟨-, hf, -⟩⟩ := step_cases h
  · exact ⟨d, by rw [hf, hn], le_rfl⟩
  · rw [hf]
    by_cases he : n = node
    · subst he
      exact ⟨_, lookup_setFact_self (mem_keys_of_lookup hold), hd n d hn⟩
    · exact ⟨d, by rw [lookup_setFact_of_ne he, hn], le_rfl⟩

theorem Descending.step (hd : a.Descending p)
    (h : a.step Context.lattice p node waiting = .ok q) : a.Descending q := by
  intro n c hc
  refine (outgoing_mono (hd.below h)).trans ?_
  obtain hold | ⟨-, rfl⟩ := lookup_step h hc
  · exact hd n c hold
  · exact le_rfl

/-! ### Facts hold mentioned names -/

/-- The names that the concrete contexts established at nodes mention. -/
def mentioned (a : MustAnalysis) : NameSet :=
  .ofList (a.graph.names.flatMap fun n => ((a.genAt n).names?.map NameSet.names).getD [])

theorem mem_mentioned :
    x ∈ a.mentioned ↔ ∃ n ∈ a.graph.names, ∃ s, a.genAt n = .concrete s ∧ x ∈ s := by
  simp only [mentioned, NameSet.mem_ofList, List.mem_flatMap]
  refine exists_congr fun n => and_congr_right fun _ => ?_
  cases a.genAt n <;> simp [Context.names?]

/-- What a node establishes is universal if it enables a name that no node mentions. -/
theorem genAt_eq_universal (hn : n ∈ a.graph.names) (hx : x ∉ a.mentioned)
    (h : (a.genAt n).enables x = true) : a.genAt n = .universal := by
  cases hg : a.genAt n with
  | universal => rfl
  | concrete s =>
    rw [hg, Context.enables_concrete] at h
    exact absurd (mem_mentioned.2 ⟨n, hn, s, hg, h⟩) hx

/-- A fact is universal if it enables a name that no node mentions. -/
def Confined (a : MustAnalysis) (p : Progress) : Prop :=
  ∀ n c, p.facts.lookup n = some c → ∀ x, x ∉ a.mentioned → c.enables x = true → c = .universal

theorem Confined.start (a : MustAnalysis) : a.Confined (a.start Context.lattice) :=
  fun _ _ hc _ _ _ => lookup_start hc

/-- A name that no node mentions comes out of a node only if the node establishes everything or
all that flows into it is universal. -/
theorem Confined.outgoing_eq_universal (hc : a.Confined p) (hn : n ∈ a.graph.names)
    (hx : x ∉ a.mentioned) (h : (a.outgoing Context.lattice p.facts n).enables x = true) :
    a.outgoing Context.lattice p.facts n = .universal := by
  refine Context.eq_universal_of_enables fun y => enables_outgoing.2 ?_
  rcases enables_outgoing.1 h with hgen | ⟨hne, hpred⟩
  · rw [genAt_eq_universal hn hx hgen]
    exact .inl rfl
  · refine .inr ⟨hne, fun m hm c hm' => ?_⟩
    rw [hc m c hm' x hx (hpred m hm c hm')]
    rfl

theorem Confined.step (hc : a.Confined p) (hk : p.facts.map Prod.fst = a.graph.names)
    (h : a.step Context.lattice p node waiting = .ok q) : a.Confined q := by
  intro n c hn x hx hcx
  obtain hold | ⟨rfl, rfl⟩ := lookup_step h hn
  · exact hc n c hold x hx hcx
  · obtain ⟨old, hold, -⟩ := step_cases h
    exact hc.outgoing_eq_universal (hk ▸ mem_keys_of_lookup hold) hx hcx

/-- Concrete facts are no larger than the set of mentioned names. -/
theorem Confined.size_le (hc : a.Confined p) {s : NameSet}
    (hn : p.facts.lookup n = some (.concrete s)) : s.size ≤ a.mentioned.size := by
  refine NameSet.size_le fun x hx => ?_
  by_contra hm
  have huniversal := hc n _ hn x hm (Context.enables_concrete.2 hx)
  cases huniversal

/-! ### Changes pay for waiting nodes -/

theorem length_enqueue_le (waiting nodes : List String) :
    (enqueue waiting nodes).length ≤ waiting.length + nodes.length := by
  unfold enqueue
  induction nodes generalizing waiting with
  | nil => simp
  | cons n nodes ih =>
    rw [List.foldl_cons, List.length_cons]
    refine (ih _).trans ?_
    split
    · omega
    · rw [List.length_append, List.length_singleton]
      omega

theorem setFact_of_notMem (h : node ∉ facts.map Prod.fst) : setFact facts node c = facts := by
  refine (List.map_congr_left fun fact hfact => ?_).trans facts.map_id
  refine if_neg ?_
  rintro rfl
  exact h (List.mem_map_of_mem hfact)

/-- A new fact changes the sum of all weights at its node only. -/
theorem sum_setFact (weight : String × Context → Nat) (hn : (facts.map Prod.fst).Nodup)
    (hold : facts.lookup node = some old) :
    ((setFact facts node c).map weight).sum + weight (node, old) =
      (facts.map weight).sum + weight (node, c) := by
  induction facts with
  | nil => cases hold
  | cons fact facts ih =>
    obtain ⟨other, d⟩ := fact
    rw [List.map_cons, List.nodup_cons] at hn
    by_cases he : other = node
    · subst he
      have hd : d = old := by simpa using hold
      have hrest : setFact facts other c = facts := setFact_of_notMem hn.1
      have hset : setFact ((other, d) :: facts) other c = (other, c) :: setFact facts other c := by
        simp [setFact]
      rw [hset, hrest, hd]
      simp only [List.map_cons, List.sum_cons]
      omega
    · have hb : (node == other) = false := beq_eq_false_iff_ne.2 (Ne.symm he)
      have hrest : facts.lookup node = some old := by simpa [List.lookup_cons, hb] using hold
      have hset : setFact ((other, d) :: facts) node c = (other, d) :: setFact facts node c := by
        simp [setFact, he]
      have hsum := ih hn.2 hrest
      rw [hset]
      simp only [List.map_cons, List.sum_cons]
      omega

/-- What the fact of a node can still cost: each loss of height may put all successors of the node
into the queue. -/
def toll (a : MustAnalysis) (fact : String × Context) : Nat :=
  (a.graph.successors fact.1).length * fact.2.height a.mentioned.size

/-- An upper bound on the steps to come: the nodes that wait, and those that may yet be put into the
queue. -/
def remaining (a : MustAnalysis) (p : Progress) : Nat :=
  p.waiting.length + (p.facts.map a.toll).sum

/-- The number of nodes, and for each edge one more than the number of mentioned names. -/
def stepBound (a : MustAnalysis) : Nat :=
  a.graph.nodes.length + a.graph.edgeCount * (a.mentioned.size + 1)

theorem remaining_start (a : MustAnalysis) :
    a.remaining (a.start Context.lattice) = a.stepBound := by
  have htoll : a.toll ∘ (fun n => (n, Context.lattice.top)) =
      fun n => (a.graph.successors n).length * (a.mentioned.size + 1) := rfl
  simp only [remaining, start, List.map_map, htoll]
  rw [List.sum_map_mul_right, FlowGraph.sum_length_successors, stepBound, FlowGraph.names,
    List.length_map]

/-- A step that changes no fact takes one node out of the queue. A change puts in at most all
successors of its node, and the height that is lost covers each of them. -/
theorem remaining_step (hk : p.facts.map Prod.fst = a.graph.names) (hd : a.Descending p)
    (hc : a.Confined p) (hw : p.waiting = node :: waiting)
    (h : a.step Context.lattice p node waiting = .ok q) :
    q.steps + a.remaining q ≤ p.steps + a.remaining p := by
  have hnext := hc.step hk h
  obtain ⟨old, hold, hsteps, ⟨-, hf, hq⟩ | ⟨hne, hf, hq⟩⟩ := step_cases h
  · simp only [remaining, hf, hq, hw, hsteps, List.length_cons]
    omega
  · have hnew : q.facts.lookup node = some (a.outgoing Context.lattice p.facts node) := by
      rw [hf, lookup_setFact_self (mem_keys_of_lookup hold)]
    have hheight : (a.outgoing Context.lattice p.facts node).height a.mentioned.size <
        old.height a.mentioned.size := by
      refine Context.height_lt (lt_of_le_of_ne (hd node old hold) hne) fun s hs => ?_
      exact hnext.size_le (hs ▸ hnew)
    have hpaid : a.toll (node, a.outgoing Context.lattice p.facts node) +
        (a.graph.successors node).length ≤ a.toll (node, old) := by
      rw [toll, ← Nat.mul_succ]
      exact Nat.mul_le_mul_left _ hheight
    have hkeys : (p.facts.map Prod.fst).Nodup := hk ▸ a.graph.nodup
    have hsum := sum_setFact (c := a.outgoing Context.lattice p.facts node) a.toll hkeys hold
    have hlength := length_enqueue_le waiting (a.graph.successors node)
    simp only [remaining, hf, hq, hw, hsteps, List.length_cons]
    omega

/-- What a run on a closed graph keeps: the steps taken and the steps to come stay within the
bound. -/
structure Budgeted (a : MustAnalysis) (p : Progress) : Prop where
  tabled : a.Tabled p
  descending : a.Descending p
  confined : a.Confined p
  steps_le : p.steps + a.remaining p ≤ a.stepBound

theorem Budgeted.start (a : MustAnalysis) : a.Budgeted (a.start Context.lattice) where
  tabled := Tabled.start a _
  descending := Descending.start a
  confined := Confined.start a
  steps_le := by
    rw [remaining_start]
    exact (Nat.zero_add _).le

theorem Budgeted.step (hb : a.Budgeted p) (hc : a.graph.Closed) (hw : p.waiting = node :: waiting)
    (h : a.step Context.lattice p node waiting = .ok q) : a.Budgeted q where
  tabled := hb.tabled.step hc hw h
  descending := hb.descending.step h
  confined := hb.confined.step hb.tabled.keys h
  steps_le := (remaining_step hb.tabled.keys hb.descending hb.confined hw h).trans hb.steps_le

/-- A run goes on until no node waits or the limit is used up. -/
theorem run_stops {limit : Nat} (h : a.run Context.lattice limit p = .ok q) :
    q.waiting = [] ∨ q.steps = p.steps + limit := by
  induction limit generalizing p with
  | zero =>
    cases h
    exact .inr rfl
  | succ limit ih =>
    unfold run at h
    split at h
    · rename_i hw
      cases h
      exact .inl hw
    · rename_i node waiting hw
      split at h
      · cases h
      · rename_i r hr
        obtain ⟨old, -, hsteps, -⟩ := step_cases hr
        refine (ih h).imp_right fun hq => ?_
        omega

/-- On a closed graph a run whose limit is no smaller than the bound ends because no node waits any
more, and has taken no more steps than the bound. -/
theorem solve_ends_within_bound (a : MustAnalysis) (limit : Nat) (hc : a.graph.Closed)
    (hlimit : a.stepBound ≤ limit) :
    ∃ p, a.solve Context.lattice limit = .ok p ∧ p.waiting = [] ∧ p.steps ≤ a.stepBound := by
  obtain ⟨p, hp, -⟩ := (Tabled.start a Context.lattice).exists_run hc limit
  have hb : a.Budgeted p :=
    run_induction (Budgeted.start a) (fun _ _ _ _ hb hw hq => hb.step hc hw hq) hp
  have hbound := hb.steps_le
  refine ⟨p, hp, ?_, by omega⟩
  rcases run_stops hp with hw | hsteps
  · exact hw
  · -- The limit is used up, so nothing remains of the bound, not even a waiting node.
    have hzero : p.waiting.length = 0 := by
      have hstart : (a.start Context.lattice).steps = 0 := rfl
      unfold remaining at hbound
      omega
    exact List.length_eq_zero_iff.1 hzero

/-- A cycle whose facts come down twice, first along the edge from `"b"` and then along the shorter
path, beside a node that establishes everything. -/
def coolingCycle : MustAnalysis :=
  .ofPairs [("c", ["d"]), ("d", ["c"]), ("b", ["c"]), ("a", ["b", "c"]), ("trap", ["d", "trap"])]
    [("a", .empty), ("b", .of ["y", "x"]), ("trap", .universal)] "a"

/-- Five nodes, seven edges and two names allow for 26 steps. -/
theorem solve_ends_within_bound_cycle : coolingCycle.graph.Closed ∧ coolingCycle.stepBound = 26 ∧
    ∃ p, coolingCycle.solve Context.lattice 26 = .ok p ∧ p.waiting = [] ∧ p.steps ≤ 26 := by
  have hc : coolingCycle.graph.Closed := by decide
  have hbound : coolingCycle.stepBound = 26 := by decide
  obtain ⟨p, hp, hw, hsteps⟩ := solve_ends_within_bound coolingCycle 26 hc hbound.le
  exact ⟨hc, hbound, p, hp, hw, hbound ▸ hsteps⟩

end MustAnalysis

end FeatureLattice
