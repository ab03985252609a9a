import FeatureLattice.Proofs.WorkQueue

/-!
# Facts and paths

The solver computes by equations between neighbouring nodes; what is asked for is a statement about
all paths from the entry, of which a graph with a cycle has infinitely many. Both agree when the
queue runs empty. The features on all paths support themselves through the equations, so no fact
falls below them. A feature of a settled fact is followed back along a path to the node that
establishes it.
-/
namespace FeatureLattice.MustAnalysis

variable {a : MustAnalysis} {p : Progress} {n x : String} {c : Context}

/-- If a node does not establish a feature that is on all its paths, then the feature is on all
paths of each predecessor, since these go on to the node. -/
theorem supported_onAllPaths (a : MustAnalysis) :
    a.Supported fun n x => n ∈ a.graph.names ∧ a.OnAllPaths n x := by
  rintro n x ⟨hn, hall⟩
  by_cases hgen : (a.genAt n).enables x = true
  · exact .inl hgen
  refine .inr ⟨?_, ?_⟩
  · rintro rfl
    obtain ⟨m, hm, hx⟩ := hall _ (.start hn)
    rw [List.mem_singleton.1 hm] at hx
    exact hgen hx
  · intro m hm
    have hmn := FlowGraph.mem_predecessors.1 hm
    refine ⟨FlowGraph.mem_names_of_mem_successors hmn, ?_⟩
    intro path hp
    obtain ⟨k, hk, hx⟩ := hall _ (hp.extend hmn)
    rcases List.mem_append.1 hk with hk | hk
    · exact ⟨k, hk, hx⟩
    · rw [List.mem_singleton.1 hk] at hx
      exact absurd hx hgen

/-- When no node waits, every node has the fact that its equation asks for. -/
theorem Settled.eq_outgoing (hs : a.Settled p) (hw : p.waiting = []) (hn : n ∈ a.graph.names)
    (hl : p.facts.lookup n = some c) : c = a.outgoing Context.lattice p.facts n := by
  have hset := hs n hn (by simp [hw])
  rw [hl] at hset
  exact Option.some.inj hset

/-- A feature of a settled fact is established on every path: if the last node does not establish
it then the node before has it. -/
theorem Invariant.onAllPaths (hi : a.Invariant p) (hw : p.waiting = [])
    (hc : a.graph.Closed) (hl : p.facts.lookup n = some c) (hx : c.enables x = true) :
    a.OnAllPaths n x := by
  intro path hp
  induction hp generalizing c with
  | start hn =>
    rw [hi.settled.eq_outgoing hw hn hl, enables_outgoing] at hx
    rcases hx with hx | ⟨hne, -⟩
    · exact ⟨_, List.mem_singleton.2 rfl, hx⟩
    · exact absurd rfl hne
  | @extend path m n hp hmn ih =>
    rw [hi.settled.eq_outgoing hw (FlowGraph.closed_iff.1 hc m n hmn) hl, enables_outgoing] at hx
    rcases hx with hx | ⟨-, hpred⟩
    · exact ⟨n, by simp, hx⟩
    · have hm := FlowGraph.mem_names_of_mem_successors hmn
      obtain ⟨d, hd⟩ := hi.tabled.exists_fact hm
      obtain ⟨k, hk, hkx⟩ := ih hd (hpred m (FlowGraph.mem_predecessors.2 hmn) d hd)
      exact ⟨k, List.mem_append_left _ hk, hkx⟩

/-- Once the queue is empty, the fact of a node has exactly the features on all its paths. -/
theorem Invariant.enables_iff (hi : a.Invariant p) (hw : p.waiting = []) (hc : a.graph.Closed)
    (hn : n ∈ a.graph.names) (hl : p.facts.lookup n = some c) :
    c.enables x = true ↔ a.OnAllPaths n x :=
  ⟨hi.onAllPaths hw hc hl, fun hall => hi.covers _ a.supported_onAllPaths n c hl x ⟨hn, hall⟩⟩

/-- On a closed graph the solver does not fault, and when its queue runs empty the fact of every
node enables the features that are established on all paths from the entry, and no others. So a
node without a path keeps the universal context, and the facts do not depend on the order in which
nodes and successors are listed. -/
theorem solve_eq_meet_over_paths (a : MustAnalysis) (limit : Nat) (hc : a.graph.Closed) :
    ∃ p, a.solve Context.lattice limit = .ok p ∧ (p.waiting = [] →
      ∀ n ∈ a.graph.names, ∃ c, p.facts.lookup n = some c ∧
        (∀ x, c.enables x = true ↔
          ∀ path, a.graph.Path a.entry path n → ∃ m ∈ path, (a.genAt m).enables x = true) ∧
        ((¬ ∃ path, a.graph.Path a.entry path n) → c = .universal) ∧
        ∀ b limit' q, a.SameFlow b → b.solve Context.lattice limit' = .ok q → q.waiting = [] →
          q.facts.lookup n = some c) := by
  obtain ⟨p, hp, -⟩ := (Tabled.start a Context.lattice).exists_run hc limit
  refine ⟨p, hp, fun hw n hn => ?_⟩
  have hi := Invariant.of_solve hc hp
  obtain ⟨c, hl⟩ := hi.tabled.exists_fact hn
  refine ⟨c, hl, fun x => hi.enables_iff hw hc hn hl, ?_, ?_⟩
  · intro hnone
    refine Context.eq_universal_of_enables fun x => (hi.enables_iff hw hc hn hl).2 ?_
    intro path hpath
    exact absurd ⟨path, hpath⟩ hnone
  · intro b limit' q hab hq hqw
    have hcb := hab.closed hc
    have hib := Invariant.of_solve hcb hq
    have hnb := (hab.names n).1 hn
    obtain ⟨d, hd⟩ := hib.tabled.exists_fact hnb
    have hcd : c = d := Context.ext_enables fun x => by
      rw [hi.enables_iff hw hc hn hl, hab.onAllPaths_iff, hib.enables_iff hqw hcb hnb hd]
    rw [hd, hcd]

/-- A loop through the entry and a cycle of its own, which also flows into the exit. -/
def loopAndOrphan : MustAnalysis :=
  .ofPairs [("body", ["head", "body"]), ("orphan", ["orphan", "exit"]),
      ("head", ["body", "exit", "body"]), ("exit", [])]
    [("body", .of ["b", "a"]), ("head", .of ["a"])] "head"

/-- The exit keeps what the entry establishes: the body is not on the short path, and the orphan,
which no path reaches, takes nothing away. -/
theorem solve_eq_meet_over_paths_loop : loopAndOrphan.graph.Closed ∧
    ∃ p, loopAndOrphan.solve Context.lattice 20 = .ok p ∧ p.waiting = [] ∧
      p.facts.lookup "exit" = some (.of ["a"]) ∧
      ∀ path, loopAndOrphan.graph.Path "head" path "exit" →
        ∃ m ∈ path, (loopAndOrphan.genAt m).enables "a" = true := by
  have hc : loopAndOrphan.graph.Closed := by decide
  obtain ⟨p, hp, hfacts⟩ := solve_eq_meet_over_paths loopAndOrphan 20 hc
  obtain ⟨q, hq, hw, hexit⟩ : ∃ q, loopAndOrphan.solve Context.lattice 20 = .ok q ∧
      q.waiting = [] ∧ q.facts.lookup "exit" = some (.of ["a"]) := ⟨_, rfl, rfl, rfl⟩
  obtain rfl : p = q := Except.ok.inj (hp.symm.trans hq)
  obtain ⟨c, hl, hiff, -⟩ := hfacts hw "exit" (by decide)
  obtain rfl : c = .of ["a"] := Option.some.inj (hl.symm.trans hexit)
  exact ⟨hc, p, hp, hw, hexit, (hiff "a").1 (by simp)⟩

end FeatureLattice.MustAnalysis
