import FeatureLattice.Proofs.FlowGraph
import FeatureLattice.Proofs.Meaning

/-!
# The queue of the solver

What one step of the solver does to the facts and the queue, and what a run keeps. The facts stay a
table of the nodes. A node outside the queue has the fact that its equation asks for: a changed
fact only disturbs the equations of successors, and these go back into the queue. In the other
direction no fact falls below what supports itself through the equations.
-/
namespace FeatureLattice.MustAnalysis

variable {a : MustAnalysis} {l : MeetSemilattice Context} {facts facts' : List (String × Context)}
  {p q : Progress} {node n x : String} {c : Context} {waiting : List String}

@[simp] theorem mem_enqueue {nodes : List String} :
    n ∈ enqueue waiting nodes ↔ n ∈ waiting ∨ n ∈ nodes := by
  unfold enqueue
  induction nodes generalizing waiting with
  | nil => simp
  | cons m nodes ih =>
    rw [List.foldl_cons, ih]
    split
    · rename_i hm
      constructor
      · rintro (h | h)
        · exact .inl h
        · exact .inr (List.mem_cons_of_mem m h)
      · rintro (h | h)
        · exact .inl h
        · rcases List.mem_cons.1 h with rfl | h
          · exact .inl hm
          · exact .inr h
    · simp only [List.mem_append, List.mem_cons, List.not_mem_nil, or_false, or_assoc]

@[simp] theorem map_fst_setFact :
    (setFact facts node c).map Prod.fst = facts.map Prod.fst := by
  rw [setFact, List.map_map]
  refine List.map_congr_left fun entry _ => ?_
  simp only [Function.comp]
  split <;> rfl

theorem lookup_setFact_self (h : node ∈ facts.map Prod.fst) :
    (setFact facts node c).lookup node = some c := by
  induction facts with
  | nil => simp at h
  | cons entry facts ih =>
    obtain ⟨other, d⟩ := entry
    by_cases he : other = node
    · subst he
      simp [setFact]
    · have hb : (node == other) = false := beq_eq_false_iff_ne.2 (Ne.symm he)
      have hm : node ∈ facts.map Prod.fst := by simpa [Ne.symm he] using h
      simpa [setFact, he, List.lookup_cons, hb] using ih hm

theorem lookup_setFact_of_ne (h : n ≠ node) :
    (setFact facts node c).lookup n = facts.lookup n := by
  induction facts with
  | nil => rfl
  | cons entry facts ih =>
    obtain ⟨other, d⟩ := entry
    have ih' : (setFact facts node c).lookup n = facts.lookup n := ih
    by_cases he : other = node
    · subst he
      have hb : (n == other) = false := beq_eq_false_iff_ne.2 h
      simpa [setFact, List.lookup_cons, hb] using ih'
    · cases hb : n == other <;> simp [setFact, he, List.lookup_cons, hb] at ih' ⊢
      exact ih'

/-- What is known at a node depends on the facts of its predecessors only. -/
theorem outgoing_congr
    (h : ∀ m ∈ a.graph.predecessors n, facts.lookup m = facts'.lookup m) :
    a.outgoing l facts n = a.outgoing l facts' n := by
  unfold outgoing incoming
  rw [List.filterMap_congr h]

/-- A new fact of a node that is no predecessor of another changes nothing there. -/
theorem outgoing_setFact (h : n ∉ a.graph.successors node) :
    a.outgoing l (setFact facts node c) n = a.outgoing l facts n := by
  refine outgoing_congr fun m hm => lookup_setFact_of_ne ?_
  rintro rfl
  exact h (FlowGraph.mem_predecessors.1 hm)

/-- A feature is known at a node if the node establishes it, or if the node is not the entry and
all its predecessors agree on the feature. -/
theorem enables_outgoing :
    (a.outgoing Context.lattice facts n).enables x = true ↔
      (a.genAt n).enables x = true ∨ n ≠ a.entry ∧
        ∀ m ∈ a.graph.predecessors n, ∀ c, facts.lookup m = some c → c.enables x = true := by
  unfold outgoing incoming
  by_cases he : n = a.entry
  · simp [he]
  · simp only [he, if_false, Context.enables_union, Bool.or_eq_true, Context.enables_meetAll,
      List.mem_filterMap, ne_eq, not_false_eq_true, true_and]
    rw [or_comm]
    refine or_congr_right ⟨fun h m hm c hc => h c ⟨m, hm, hc⟩, ?_⟩
    rintro h c ⟨m, hm, hc⟩
    exact h m hm c hc

/-- A step either finds the fact of its node settled, or replaces it and puts the successors of the
node back into the queue. -/
theorem step_cases (h : a.step Context.lattice p node waiting = .ok q) :
    ∃ old, p.facts.lookup node = some old ∧ q.steps = p.steps + 1 ∧
      (a.outgoing Context.lattice p.facts node = old ∧ q.facts = p.facts ∧
          q.waiting = waiting ∨
        a.outgoing Context.lattice p.facts node ≠ old ∧
          q.facts = setFact p.facts node (a.outgoing Context.lattice p.facts node) ∧
          q.waiting = enqueue waiting (a.graph.successors node)) := by
  unfold step at h
  cases hold : p.facts.lookup node with
  | none => simp [hold] at h
  | some old =>
    simp only [hold] at h
    refine ⟨old, rfl, ?_⟩
    split at h
    · rename_i heq
      cases h
      exact ⟨rfl, .inl ⟨by simpa [Context.lattice] using heq, rfl, rfl⟩⟩
    · rename_i hne
      cases h
      exact ⟨rfl, .inr ⟨by simpa [Context.lattice] using hne, rfl, rfl⟩⟩

/-- After a step a node has the fact it had before, or it is the node of the step and has what its
equation asked for. -/
theorem lookup_step (h : a.step Context.lattice p node waiting = .ok q)
    (hc : q.facts.lookup n = some c) :
    p.facts.lookup n = some c ∨ n = node ∧ c = a.outgoing Context.lattice p.facts n := by
  obtain ⟨old, hold, -, ⟨-, hf, -⟩ | ⟨-, hf, -⟩⟩ := step_cases h
  · exact .inl (hf ▸ hc)
  · rw [hf] at hc
    by_cases he : n = node
    · subst he
      rw [lookup_setFact_self (mem_keys_of_lookup hold)] at hc
      exact .inr ⟨rfl, (Option.some.inj hc).symm⟩
    · rw [lookup_setFact_of_ne he] at hc
      exact .inl hc

theorem keys_step (h : a.step Context.lattice p node waiting = .ok q) :
    q.facts.map Prod.fst = p.facts.map Prod.fst := by
  obtain ⟨old, -, -, ⟨-, hf, -⟩ | ⟨-, hf, -⟩⟩ := step_cases h
  · rw [hf]
  · rw [hf, map_fst_setFact]

/-- At the start every fact is universal. -/
theorem lookup_start (h : (a.start Context.lattice).facts.lookup n = some c) : c = .universal := by
  obtain ⟨m, -, he⟩ := List.mem_map.1 (mem_of_lookup h)
  cases he
  rfl

/-- A step has a result if its node has a fact. -/
theorem exists_step (h : node ∈ p.facts.map Prod.fst) :
    ∃ q, a.step l p node waiting = .ok q := by
  obtain ⟨old, hold⟩ := exists_lookup_of_mem_keys h
  unfold step
  rw [hold]
  dsimp only
  split <;> exact ⟨_, rfl⟩

/-- A run keeps what every step on the first waiting node keeps. -/
theorem run_induction {P : Progress → Prop} {limit : Nat} (hp : P p)
    (hstep : ∀ p q node waiting, P p → p.waiting = node :: waiting →
      a.step l p node waiting = .ok q → P q)
    (h : a.run l limit p = .ok q) : P q := by
  induction limit generalizing p with
  | zero =>
    cases h
    exact hp
  | succ limit ih =>
    unfold run at h
    split at h
    · cases h
      exact hp
    · rename_i node waiting hw
      split at h
      · cases h
      · rename_i r hr
        exact ih (hstep p r node waiting hp hw hr) h

/-- The facts are a table of the nodes, and only nodes wait. -/
structure Tabled (a : MustAnalysis) (p : Progress) : Prop where
  keys : p.facts.map Prod.fst = a.graph.names
  waiting : ∀ n ∈ p.waiting, n ∈ a.graph.names

namespace Tabled

theorem start (a : MustAnalysis) (l : MeetSemilattice Context) : a.Tabled (a.start l) where
  keys := by simp [MustAnalysis.start, Function.comp_def]
  waiting _ h := h

theorem exists_fact (ht : a.Tabled p) (h : n ∈ a.graph.names) :
    ∃ c, p.facts.lookup n = some c :=
  exists_lookup_of_mem_keys (ht.keys ▸ h)

theorem step (ht : a.Tabled p) (hc : a.graph.Closed) (hw : p.waiting = node :: waiting)
    (h : a.step Context.lattice p node waiting = .ok q) : a.Tabled q := by
  have hrest : ∀ n ∈ waiting, n ∈ a.graph.names := by
    intro n hn
    exact ht.waiting n (hw ▸ List.mem_cons_of_mem node hn)
  refine ⟨(keys_step h).trans ht.keys, ?_⟩
  obtain ⟨old, -, -, ⟨-, -, hq⟩ | ⟨-, -, hq⟩⟩ := step_cases h
  · exact hq ▸ hrest
  · intro n hn
    rw [hq, mem_enqueue] at hn
    rcases hn with hn | hn
    · exact hrest n hn
    · exact FlowGraph.closed_iff.1 hc node n hn

/-- On a closed graph no run faults. -/
theorem exists_run (ht : a.Tabled p) (hc : a.graph.Closed) (limit : Nat) :
    ∃ q, a.run Context.lattice limit p = .ok q ∧ a.Tabled q := by
  induction limit generalizing p with
  | zero => exact ⟨p, rfl, ht⟩
  | succ limit ih =>
    unfold run
    split
    · exact ⟨p, rfl, ht⟩
    · rename_i node waiting hw
      have hnode : node ∈ p.facts.map Prod.fst := by
        rw [ht.keys]
        exact ht.waiting node (hw ▸ List.mem_cons_self)
      obtain ⟨r, hr⟩ : ∃ r, a.step Context.lattice p node waiting = .ok r := exists_step hnode
      rw [hr]
      exact ih (ht.step hc hw hr)

end Tabled

/-- Every node outside the queue has the fact that its equation asks for. -/
def Settled (a : MustAnalysis) (p : Progress) : Prop :=
  ∀ n ∈ a.graph.names, n ∉ p.waiting →
    p.facts.lookup n = some (a.outgoing Context.lattice p.facts n)

/-- A new fact disturbs the equations of its successors only, and these wait afterwards. If the
node is a successor of its own it waits as well. -/
theorem Settled.step (hs : a.Settled p) (hw : p.waiting = node :: waiting)
    (h : a.step Context.lattice p node waiting = .ok q) : a.Settled q := by
  have hother : ∀ n ∈ a.graph.names, n ≠ node → n ∉ waiting →
      p.facts.lookup n = some (a.outgoing Context.lattice p.facts n) := by
    intro n hn hne hnw
    refine hs n hn ?_
    rw [hw, List.mem_cons, not_or]
    exact ⟨hne, hnw⟩
  intro n hn hnw
  obtain ⟨old, hold, -, ⟨heq, hf, hq⟩ | ⟨-, hf, hq⟩⟩ := step_cases h
  -- The fact of the node was settled already, so taking it out of the queue is safe.
  · rw [hf]
    rw [hq] at hnw
    by_cases he : n = node
    · rw [he, hold, heq]
    · exact hother n hn he hnw
  -- A node that does not wait now is no successor, so its equation reads the old facts.
  · rw [hq, mem_enqueue, not_or] at hnw
    rw [hf, outgoing_setFact hnw.2]
    by_cases he : n = node
    · rw [he, lookup_setFact_self (mem_keys_of_lookup hold)]
    · rw [lookup_setFact_of_ne he]
      exact hother n hn he hnw.1

/-- Features at nodes that support themselves: each is established by its node, or its node is not
the entry and all predecessors have the feature. -/
def Supported (a : MustAnalysis) (B : String → String → Prop) : Prop :=
  ∀ n x, B n x → (a.genAt n).enables x = true ∨
    n ≠ a.entry ∧ ∀ m ∈ a.graph.predecessors n, B m x

/-- The facts have all the given features at nodes. -/
def Covers (B : String → String → Prop) (p : Progress) : Prop :=
  ∀ n c, p.facts.lookup n = some c → ∀ x, B n x → c.enables x = true

theorem Covers.step {B : String → String → Prop} (hp : Covers B p) (hb : a.Supported B)
    (h : a.step Context.lattice p node waiting = .ok q) : Covers B q := by
  intro n c hc x hx
  obtain hold | ⟨-, rfl⟩ := lookup_step h hc
  · exact hp n c hold x hx
  · refine enables_outgoing.2 ((hb n x hx).imp_right ?_)
    rintro ⟨hne, hpred⟩
    refine ⟨hne, ?_⟩
    intro m hm d hd
    exact hp m d hd x (hpred m hm)

theorem Covers.start {B : String → String → Prop} :
    Covers B (a.start Context.lattice) := by
  intro n c hc x _
  rw [lookup_start hc]
  rfl

/-- What every run on a closed graph keeps. -/
structure Invariant (a : MustAnalysis) (p : Progress) : Prop where
  tabled : a.Tabled p
  settled : a.Settled p
  covers : ∀ B, a.Supported B → Covers B p

theorem Invariant.start (a : MustAnalysis) : a.Invariant (a.start Context.lattice) where
  tabled := Tabled.start a _
  settled _ hn hnw := absurd hn hnw
  covers _ _ := Covers.start

theorem Invariant.step (hi : a.Invariant p) (hc : a.graph.Closed)
    (hw : p.waiting = node :: waiting) (h : a.step Context.lattice p node waiting = .ok q) :
    a.Invariant q where
  tabled := hi.tabled.step hc hw h
  settled := hi.settled.step hw h
  covers B hb := (hi.covers B hb).step hb h

theorem Invariant.of_solve {limit : Nat} (hc : a.graph.Closed)
    (h : a.solve Context.lattice limit = .ok p) : a.Invariant p :=
  run_induction (Invariant.start a) (fun _ _ _ _ hi hw hq => hi.step hc hw hq) h

end FeatureLattice.MustAnalysis
