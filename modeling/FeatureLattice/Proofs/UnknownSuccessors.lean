import FeatureLattice.Proofs.AllPaths
import FeatureLattice.Proofs.StepBound

/-!
# Successors that are no nodes

A graph may list successors that it has no node for. The solver faults when such a name has its
turn, and the name gets one only if a node before it loses the universal fact that all nodes start
with. That is a question of paths: a universal fact is lost at the entry first and then along
edges, and a node that establishes everything never loses its own. So a run that its limit does not
end faults exactly if a path without such nodes leads to an unknown successor.
-/
namespace FeatureLattice.MustAnalysis

variable {a : MustAnalysis} {l : MeetSemilattice Context} {p q : Progress} {m n node : String}
  {c : Context} {waiting : List String} {limit : ℕ} {fault : Fault}

/-! ### Nodes that lose their universal fact -/

/-- A node on a path from the entry on which no node establishes everything. -/
def Exposed (a : MustAnalysis) (n : String) : Prop :=
  ∃ path, a.graph.Path a.entry path n ∧ ∀ m ∈ path, a.genAt m ≠ .universal

theorem Exposed.start (hn : a.entry ∈ a.graph.names) (hgen : a.genAt a.entry ≠ .universal) :
    a.Exposed a.entry := by
  refine ⟨[a.entry], .start hn, fun m hm => ?_⟩
  rwa [List.mem_singleton.1 hm]

theorem Exposed.extend (h : a.Exposed m) (hn : n ∈ a.graph.successors m)
    (hgen : a.genAt n ≠ .universal) : a.Exposed n := by
  obtain ⟨path, hpath, hall⟩ := h
  refine ⟨path ++ [n], hpath.extend hn, fun k hk => ?_⟩
  rcases List.mem_append.1 hk with hk | hk
  · exact hall k hk
  · rwa [List.mem_singleton.1 hk]

/-- An exposed node with a successor that is no node. -/
structure LooseEnd (a : MustAnalysis) (u d : String) : Prop where
  exposed : a.Exposed u
  successor : d ∈ a.graph.successors u
  unknown : d ∉ a.graph.names

/-- Only exposed nodes have lost their universal fact. -/
def Guarded (a : MustAnalysis) (p : Progress) : Prop :=
  ∀ n c, p.facts.lookup n = some c → c ≠ .universal → a.Exposed n

/-- What comes out of a node is not universal only if the node is the entry or has a predecessor
whose fact is not universal, and does not establish everything itself. -/
theorem Guarded.exposed (hg : a.Guarded p) (hn : n ∈ a.graph.names)
    (h : a.outgoing Context.lattice p.facts n ≠ .universal) : a.Exposed n := by
  have hgen : a.genAt n ≠ .universal := by
    intro hgen
    refine h (Context.eq_universal_of_enables fun x => enables_outgoing.2 (.inl ?_))
    rw [hgen]
    rfl
  by_cases he : n = a.entry
  · subst he
    exact .start hn hgen
  · by_contra hnot
    refine h (Context.eq_universal_of_enables fun x => enables_outgoing.2 (.inr ⟨he, ?_⟩))
    intro m hm c hc
    by_contra hx
    have hlost : c ≠ .universal := by
      rintro rfl
      exact hx rfl
    exact hnot ((hg m c hc hlost).extend (FlowGraph.mem_predecessors.1 hm) hgen)

theorem Guarded.start (a : MustAnalysis) : a.Guarded (a.start Context.lattice) :=
  fun _ _ hl hc => absurd (lookup_start hl) hc

theorem Guarded.step (hg : a.Guarded p) (hk : p.facts.map Prod.fst = a.graph.names)
    (h : a.step Context.lattice p node waiting = .ok q) : a.Guarded q := by
  intro n c hl hc
  obtain hold | ⟨rfl, rfl⟩ := lookup_step h hl
  · exact hg n c hold hc
  · obtain ⟨old, hold, -⟩ := step_cases h
    exact hg.exposed (hk ▸ mem_keys_of_lookup hold) hc

/-- When no node waits, an exposed node has lost its universal fact: a name that no node mentions
cannot come in at the entry or along the path. -/
theorem Settled.ne_universal (hs : a.Settled p) (hk : p.facts.map Prod.fst = a.graph.names)
    (hw : p.waiting = []) (h : a.Exposed n) (hl : p.facts.lookup n = some c) :
    c ≠ .universal := by
  obtain ⟨path, hpath, hall⟩ := h
  obtain ⟨x, hx⟩ := a.mentioned.exists_not_mem
  suffices hnot : ¬ c.enables x = true by
    rintro rfl
    exact hnot rfl
  induction hpath generalizing c with
  | start hn =>
    rw [hs.eq_outgoing hw hn hl, enables_outgoing]
    rintro (hgen | ⟨hne, -⟩)
    · exact hall _ (by simp) (genAt_eq_universal hn hx hgen)
    · exact hne rfl
  | @extend path m n hpath hmn ih =>
    have hn : n ∈ a.graph.names := hk ▸ mem_keys_of_lookup hl
    rw [hs.eq_outgoing hw hn hl, enables_outgoing]
    rintro (hgen | ⟨-, hpred⟩)
    · exact hall n (by simp) (genAt_eq_universal hn hx hgen)
    · obtain ⟨d, hd⟩ := exists_lookup_of_mem_keys
        (hk.symm ▸ FlowGraph.mem_names_of_mem_successors hmn : m ∈ p.facts.map Prod.fst)
      exact ih hd (fun k hk => hall k (List.mem_append_left _ hk))
        (hpred m (FlowGraph.mem_predecessors.2 hmn) d hd)

/-! ### Unknown successors in the queue -/

/-- Besides nodes only successors of exposed nodes wait. -/
def Sourced (a : MustAnalysis) (p : Progress) : Prop :=
  ∀ n ∈ p.waiting, n ∈ a.graph.names ∨ ∃ m, a.Exposed m ∧ n ∈ a.graph.successors m

theorem Sourced.step (hs : a.Sourced p) (hg : a.Guarded p) (hd : a.Descending p)
    (hk : p.facts.map Prod.fst = a.graph.names) (hw : p.waiting = node :: waiting)
    (h : a.step Context.lattice p node waiting = .ok q) : a.Sourced q := by
  have hrest : ∀ n ∈ waiting, n ∈ a.graph.names ∨ ∃ m, a.Exposed m ∧ n ∈ a.graph.successors m :=
    fun n hn => hs n (hw ▸ List.mem_cons_of_mem node hn)
  intro n hn
  obtain ⟨old, hold, -, ⟨-, -, hq⟩ | ⟨hne, -, hq⟩⟩ := step_cases h
  · exact hrest n (hq ▸ hn)
  · rw [hq, mem_enqueue] at hn
    refine hn.elim (hrest n) fun hn => .inr ⟨node, ?_, hn⟩
    -- The new fact lies below the old one, so it is not universal.
    refine hg.exposed (hk ▸ mem_keys_of_lookup hold) fun huniversal => hne ?_
    have hle := hd node old hold
    rw [huniversal] at hle ⊢
    exact le_antisymm hle le_top

/-- An unknown successor waits as soon as the node before it has lost its universal fact. -/
def Pending (a : MustAnalysis) (p : Progress) : Prop :=
  ∀ m c n, p.facts.lookup m = some c → c ≠ .universal → n ∈ a.graph.successors m →
    n ∉ a.graph.names → n ∈ p.waiting

/-- The node of a step that succeeds is known, so every unknown successor goes on waiting. -/
theorem Pending.step (hp : a.Pending p) (hk : p.facts.map Prod.fst = a.graph.names)
    (hw : p.waiting = node :: waiting) (h : a.step Context.lattice p node waiting = .ok q) :
    a.Pending q := by
  intro m c n hl hc hmn hn
  obtain ⟨old, hold, -, hcases⟩ := step_cases h
  have hne : n ≠ node := by
    rintro rfl
    exact hn (hk ▸ mem_keys_of_lookup hold)
  have hrest : p.facts.lookup m = some c → n ∈ waiting := by
    intro hm
    have hmem := hp m c n hm hc hmn hn
    rw [hw] at hmem
    exact (List.mem_cons.1 hmem).resolve_left hne
  rcases hcases with ⟨-, hf, hq⟩ | ⟨-, hf, hq⟩
  · rw [hf] at hl
    exact hq ▸ hrest hl
  · rw [hq, mem_enqueue]
    by_cases he : m = node
    · exact .inr (he ▸ hmn)
    · rw [hf, lookup_setFact_of_ne he] at hl
      exact .inl (hrest hl)

/-- What every run keeps, whether or not the graph is closed. -/
structure Traced (a : MustAnalysis) (p : Progress) : Prop where
  keys : p.facts.map Prod.fst = a.graph.names
  settled : a.Settled p
  descending : a.Descending p
  confined : a.Confined p
  steps_le : p.steps + a.remaining p ≤ a.stepBound
  guarded : a.Guarded p
  sourced : a.Sourced p
  pending : a.Pending p

theorem Traced.start (a : MustAnalysis) : a.Traced (a.start Context.lattice) where
  keys := (Tabled.start a _).keys
  settled _ hn hnw := absurd hn hnw
  descending := Descending.start a
  confined := Confined.start a
  steps_le := (Budgeted.start a).steps_le
  guarded := Guarded.start a
  sourced _ hn := .inl hn
  pending _ _ _ hl hc := absurd (lookup_start hl) hc

theorem Traced.step (ht : a.Traced p) (hw : p.waiting = node :: waiting)
    (h : a.step Context.lattice p node waiting = .ok q) : a.Traced q where
  keys := (keys_step h).trans ht.keys
  settled := ht.settled.step hw h
  descending := ht.descending.step h
  confined := ht.confined.step ht.keys h
  steps_le := (remaining_step ht.keys ht.descending ht.confined hw h).trans ht.steps_le
  guarded := ht.guarded.step ht.keys h
  sourced := ht.sourced.step ht.guarded ht.descending ht.keys hw h
  pending := ht.pending.step ht.keys hw h

theorem Traced.of_solve (h : a.solve Context.lattice limit = .ok p) : a.Traced p :=
  run_induction (Traced.start a) (fun _ _ _ _ ht hw hq => ht.step hw hq) h

/-! ### How a run ends -/

/-- A step faults only at a name without a fact. -/
theorem step_eq_error (h : a.step l p node waiting = .error fault) :
    p.facts.lookup node = none ∧ fault = .unknownNode node := by
  unfold step at h
  cases hl : p.facts.lookup node with
  | none =>
    simp only [hl] at h
    exact ⟨rfl, (Except.error.inj h).symm⟩
  | some old =>
    simp only [hl] at h
    split at h <;> cases h

/-- A run that faults does so in a step, from what the steps before it keep. -/
theorem exists_step_of_run_error {P : Progress → Prop} (hp : P p)
    (hstep : ∀ p q node waiting, P p → p.waiting = node :: waiting →
      a.step l p node waiting = .ok q → P q)
    (h : a.run l limit p = .error fault) :
    ∃ r node waiting, P r ∧ r.waiting = node :: waiting ∧
      a.step l r node waiting = .error fault := by
  induction limit generalizing p with
  | zero => cases h
  | succ limit ih =>
    unfold run at h
    split at h
    · cases h
    · rename_i node waiting hw
      split at h
      · rename_i hr
        exact ⟨p, node, waiting, hp, hw, hr.trans h⟩
      · rename_i r hr
        exact ih (hstep p r node waiting hp hw hr) h

/-- The limit ends the run while nodes still wait. -/
def CutShort (a : MustAnalysis) (limit : ℕ) : Prop :=
  ∃ p, a.solve Context.lattice limit = .ok p ∧ p.waiting ≠ []

/-- A limit that the bound allows for does not end the run. -/
theorem not_cutShort (hlimit : a.stepBound ≤ limit) : ¬ a.CutShort limit := by
  rintro ⟨p, hp, hw⟩
  have hbound := (Traced.of_solve hp).steps_le
  have hsteps : p.steps = 0 + limit := (run_stops hp).resolve_left hw
  have hpos : 0 < p.waiting.length := List.length_pos_iff.2 hw
  unfold remaining at hbound
  omega

/-- A fault names an unknown successor of an exposed node. -/
theorem looseEnd_of_solve_error (h : a.solve Context.lattice limit = .error fault) :
    ∃ u d, fault = .unknownNode d ∧ a.LooseEnd u d := by
  obtain ⟨r, node, waiting, ht, hw, hr⟩ :=
    exists_step_of_run_error (Traced.start a) (fun _ _ _ _ ht hw hq => ht.step hw hq) h
  obtain ⟨hnone, rfl⟩ := step_eq_error hr
  have hnode : node ∉ a.graph.names := by
    intro hmem
    obtain ⟨c, hl⟩ := exists_lookup_of_mem_keys (ht.keys.symm ▸ hmem)
    rw [hl] at hnone
    cases hnone
  obtain ⟨u, hu, hd⟩ := (ht.sourced node (hw ▸ List.mem_cons_self)).resolve_left hnode
  exact ⟨u, node, rfl, ⟨hu, hd, hnode⟩⟩

/-- If no node waits at the end of a run then there is no loose end, since its unknown successor
would wait. -/
theorem Traced.not_looseEnd (ht : a.Traced p) (hw : p.waiting = []) : ¬ a.LooseEnd m n := by
  intro h
  have hmem : m ∈ p.facts.map Prod.fst :=
    ht.keys.symm ▸ FlowGraph.mem_names_of_mem_successors h.successor
  obtain ⟨c, hl⟩ := exists_lookup_of_mem_keys hmem
  have hlost := ht.settled.ne_universal ht.keys hw h.exposed hl
  simpa [hw] using ht.pending m c n hl hlost h.successor h.unknown

/-- **The solver faults exactly at unknown successors that a path without universal contexts leads
to.** A limit that is no smaller than the bound does not end the run. A run that its limit does not
end faults if and only if some node at the end of a path from the entry, on which no node
establishes everything, has an unknown successor; the fault names such a successor. Otherwise the
run ends because no node waits any more. -/
theorem solve_faults_iff_looseEnd (a : MustAnalysis) (limit : ℕ) :
    (a.stepBound ≤ limit → ¬ a.CutShort limit) ∧
    (¬ a.CutShort limit →
      ((∃ d, a.solve Context.lattice limit = .error (.unknownNode d)) ↔ ∃ u d, a.LooseEnd u d) ∧
      (∀ fault, a.solve Context.lattice limit = .error fault →
        ∃ u d, fault = .unknownNode d ∧ a.LooseEnd u d) ∧
      ((¬ ∃ u d, a.LooseEnd u d) →
        ∃ p, a.solve Context.lattice limit = .ok p ∧ p.waiting = [])) := by
  refine ⟨not_cutShort, fun hfree => ?_⟩
  have hends : ∀ p, a.solve Context.lattice limit = .ok p → p.waiting = [] := by
    intro p hp
    by_contra hw
    exact hfree ⟨p, hp, hw⟩
  refine ⟨⟨?_, ?_⟩, fun _ => looseEnd_of_solve_error, fun hnone => ?_⟩
  · rintro ⟨node, h⟩
    obtain ⟨u, d, -, hloose⟩ := looseEnd_of_solve_error h
    exact ⟨u, d, hloose⟩
  · rintro ⟨u, d, hloose⟩
    cases h : a.solve Context.lattice limit with
    | error fault =>
      obtain ⟨-, node, rfl, -⟩ := looseEnd_of_solve_error h
      exact ⟨node, rfl⟩
    | ok p => exact absurd hloose ((Traced.of_solve h).not_looseEnd (hends p h))
  · cases h : a.solve Context.lattice limit with
    | error fault =>
      obtain ⟨u, d, -, hloose⟩ := looseEnd_of_solve_error h
      exact absurd ⟨u, d, hloose⟩ hnone
    | ok p => exact ⟨p, rfl, hends p h⟩

/-- A cycle beside a node that has an unknown successor. -/
def cycleAndExit (shield : Context) : MustAnalysis :=
  .ofPairs [("a", ["b", "c"]), ("b", ["a"]), ("c", ["lost"])] [("c", shield)] "a"

/-- The unknown successor is found out, unless the node before it establishes everything. -/
theorem solve_faults_iff_looseEnd_shield :
    (cycleAndExit .empty).solve Context.lattice 20 = .error (.unknownNode "lost") ∧
    (∃ u d, (cycleAndExit .empty).LooseEnd u d) ∧
    (∃ p, (cycleAndExit .universal).solve Context.lattice 20 = .ok p ∧ p.waiting = []) ∧
    ¬ ∃ u d, (cycleAndExit .universal).LooseEnd u d := by
  have hfault : (cycleAndExit .empty).solve Context.lattice 20 = .error (.unknownNode "lost") := rfl
  obtain ⟨p, hp, hw⟩ : ∃ p, (cycleAndExit .universal).solve Context.lattice 20 = .ok p ∧
      p.waiting = [] := ⟨_, rfl, rfl⟩
  obtain ⟨hfree, hends⟩ := solve_faults_iff_looseEnd (cycleAndExit .empty) 20
  obtain ⟨hfree', hends'⟩ := solve_faults_iff_looseEnd (cycleAndExit .universal) 20
  obtain ⟨hfaults, -⟩ := hends (hfree (by decide))
  obtain ⟨hfaults', -⟩ := hends' (hfree' (by decide))
  refine ⟨hfault, hfaults.1 ⟨_, hfault⟩, ⟨p, hp, hw⟩, fun hloose => ?_⟩
  obtain ⟨node, h⟩ := hfaults'.2 hloose
  rw [hp] at h
  cases h

end FeatureLattice.MustAnalysis
