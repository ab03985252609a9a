import FeatureLattice.Proofs.AllPaths
import FeatureLattice.Proofs.StepBound

/-!
# Runs that are cut short

A run that its limit ends early leaves facts that may be too large, but never too small: a longer
run goes on from them and only lowers them, and every solution of the equations lies below them. If
no node waits at the end then the facts are a solution themselves, and so the greatest one.
-/
namespace FeatureLattice.MustAnalysis

variable {a : MustAnalysis} {l : MeetSemilattice Context}
  {facts facts' facts'' : List (String × Context)} {p q : Progress} {n : String} {limit : ℕ}
  {f : String → Context}

/-! ### Longer runs -/

theorem run_of_waiting_nil (hw : p.waiting = []) (limit : ℕ) : a.run l limit p = .ok p := by
  cases limit with
  | zero => rfl
  | succ limit =>
    unfold run
    rw [hw]

/-- A longer run goes on where a shorter one ends. -/
theorem run_add (limit more : ℕ) (p : Progress) :
    a.run l (limit + more) p = (a.run l limit p).bind (a.run l more) := by
  induction limit generalizing p with
  | zero =>
    rw [Nat.zero_add]
    rfl
  | succ limit ih =>
    rw [Nat.succ_add, run, run]
    split
    · rename_i hw
      exact (run_of_waiting_nil hw more).symm
    · rename_i node waiting hw
      split
      · rfl
      · exact ih _

theorem steps_run_le (h : a.run Context.lattice limit p = .ok q) :
    q.steps ≤ p.steps + limit := by
  induction limit generalizing p with
  | zero =>
    cases h
    exact le_rfl
  | succ limit ih =>
    unfold run at h
    split at h
    · cases h
      exact Nat.le_add_right _ _
    · split at h
      · cases h
      · rename_i r hr
        obtain ⟨old, -, hsteps, -⟩ := step_cases hr
        have hle := ih h
        omega

theorem Below.refl (facts : List (String × Context)) : Below facts facts :=
  fun _ d hd => ⟨d, hd, le_rfl⟩

theorem Below.trans (h : Below facts facts') (h' : Below facts' facts'') :
    Below facts facts'' := by
  intro n e he
  obtain ⟨d, hd, hde⟩ := h' n e he
  obtain ⟨c, hc, hcd⟩ := h n d hd
  exact ⟨c, hc, hcd.trans hde⟩

/-- The facts of a table as a function. -/
theorem Tabled.exists_facts (ht : a.Tabled p) :
    ∃ f : String → Context, ∀ n ∈ a.graph.names, p.facts.lookup n = some (f n) := by
  refine ⟨fun n => (p.facts.lookup n).getD .universal, fun n hn => ?_⟩
  obtain ⟨c, hl⟩ := ht.exists_fact hn
  simp only [hl, Option.getD_some]

/-- A run lowers facts only. -/
theorem Descending.below_run (hd : a.Descending p)
    (h : a.run Context.lattice limit p = .ok q) : Below q.facts p.facts := by
  have hboth : a.Descending q ∧ Below q.facts p.facts := by
    refine run_induction (P := fun r => a.Descending r ∧ Below r.facts p.facts)
      ⟨hd, Below.refl _⟩ ?_ h
    rintro r r' node waiting ⟨hdr, hbelow⟩ - hr'
    exact ⟨hdr.step hr', (hdr.below hr').trans hbelow⟩
  exact hboth.2

theorem Descending.of_solve (h : a.solve Context.lattice limit = .ok p) : a.Descending p :=
  run_induction (Descending.start a) (fun _ _ _ _ hd _ hq => hd.step hq) h

/-! ### Solutions of the equations -/

/-- Facts that agree with the equations of all nodes: nothing is known before the entry, elsewhere
what is known after all predecessors, and the node adds what it establishes. -/
def Solves (a : MustAnalysis) (f : String → Context) : Prop :=
  ∀ n ∈ a.graph.names, f n =
    (if n = a.entry then .empty
      else Context.lattice.meetAll ((a.graph.predecessors n).map f)).union (a.genAt n)

/-- The features of a solution support themselves, which is all that is asked of it. -/
theorem Solves.supported (hf : a.Solves f) :
    a.Supported fun n x => n ∈ a.graph.names ∧ (f n).enables x = true := by
  rintro n x ⟨hn, hx⟩
  rw [hf n hn, Context.enables_union, Bool.or_eq_true] at hx
  rcases hx with hin | hgen
  · by_cases he : n = a.entry
    · simp [he] at hin
    · rw [if_neg he, Context.enables_meetAll] at hin
      refine .inr ⟨he, fun m hm => ⟨?_, hin _ (List.mem_map_of_mem hm)⟩⟩
      exact FlowGraph.mem_names_of_mem_successors (FlowGraph.mem_predecessors.1 hm)
  · exact .inl hgen

/-- Solutions stay below the facts of every run. -/
theorem Invariant.solution_le (hi : a.Invariant p) (hf : a.Solves f) (hn : n ∈ a.graph.names)
    {c : Context} (hl : p.facts.lookup n = some c) : f n ≤ c :=
  Context.le_iff_enables.2 fun x hx => hi.covers _ hf.supported n c hl x ⟨hn, hx⟩

/-- When no node waits, the facts are a solution. -/
theorem Invariant.solves (hi : a.Invariant p) (hw : p.waiting = [])
    (hf : ∀ n ∈ a.graph.names, p.facts.lookup n = some (f n)) : a.Solves f := by
  intro n hn
  have hpred : (a.graph.predecessors n).filterMap (fun m => p.facts.lookup m) =
      (a.graph.predecessors n).map f := by
    rw [← List.filterMap_eq_map]
    refine List.filterMap_congr fun m hm => hf m ?_
    exact FlowGraph.mem_names_of_mem_successors (FlowGraph.mem_predecessors.1 hm)
  rw [hi.settled.eq_outgoing hw hn (hf n hn), outgoing, incoming, hpred]

/-- **A run that is cut short leaves facts that are large enough.** On a closed graph a run takes no
more steps than its limit allows, and fewer only if no node waits any more. A longer run leaves
facts that are part of those of a shorter one, and every solution of the equations is part of the
facts at any limit. If no node waits at the end then the facts are a solution, and therefore the
greatest. -/
theorem solve_cut_short (a : MustAnalysis) (limit more : ℕ) (hc : a.graph.Closed) :
    ∃ (p q : Progress) (f g : String → Context), a.solve Context.lattice limit = .ok p ∧
      a.solve Context.lattice (limit + more) = .ok q ∧
      (∀ n ∈ a.graph.names, p.facts.lookup n = some (f n) ∧ q.facts.lookup n = some (g n)) ∧
      p.steps ≤ limit ∧ (p.steps < limit → p.waiting = []) ∧
      (∀ n ∈ a.graph.names, (g n).isSubsetOf (f n) = true) ∧
      (∀ h, a.Solves h → ∀ n ∈ a.graph.names, (h n).isSubsetOf (f n) = true) ∧
      (p.waiting = [] → a.Solves f) := by
  obtain ⟨p, hp, htp⟩ := (Tabled.start a Context.lattice).exists_run hc limit
  obtain ⟨q, hq, htq⟩ := htp.exists_run hc more
  obtain ⟨f, hf⟩ := htp.exists_facts
  obtain ⟨g, hg⟩ := htq.exists_facts
  have hi := Invariant.of_solve hc hp
  have hbelow := (Descending.of_solve hp).below_run hq
  have hstart : (a.start Context.lattice).steps = 0 := rfl
  refine ⟨p, q, f, g, hp, ?_, fun n hn => ⟨hf n hn, hg n hn⟩, ?_, ?_, ?_, ?_,
    fun hw => hi.solves hw hf⟩
  · rw [solve, run_add, hp]
    exact hq
  · have hle := steps_run_le hp
    omega
  · intro hlt
    refine (run_stops hp).resolve_right ?_
    omega
  · intro n hn
    obtain ⟨c, hl, hle⟩ := hbelow n (f n) (hf n hn)
    rw [hg n hn] at hl
    obtain rfl := Option.some.inj hl
    exact hle
  · intro h hh n hn
    exact hi.solution_le hh hn (hf n hn)

/-- After six steps `"c"` still counts as universal, since its turn has not come again. Three steps
later no node waits, and nothing is left that a solution could have at `"c"`. -/
theorem solve_cut_short_cycle : coolingCycle.graph.Closed ∧
    ∃ p q, coolingCycle.solve Context.lattice 6 = .ok p ∧
      coolingCycle.solve Context.lattice 9 = .ok q ∧
      p.waiting = ["c"] ∧ p.facts.lookup "c" = some .universal ∧ p.steps ≤ 6 ∧
      q.waiting = [] ∧ q.facts.lookup "c" = some .empty ∧
      ∃ f, coolingCycle.Solves f ∧ f "c" = .empty ∧
        ∀ h, coolingCycle.Solves h → (h "c").isSubsetOf (f "c") = true := by
  have hc : coolingCycle.graph.Closed := by decide
  obtain ⟨p, q, _, _, hp, hq, -, hsteps, -⟩ := solve_cut_short coolingCycle 6 3 hc
  obtain ⟨r, _, f, _, hr, -, hfacts, -, -, -, hbelow, hsolves⟩ :=
    solve_cut_short coolingCycle 9 0 hc
  obtain ⟨early, hearly, hew, hec⟩ : ∃ p, coolingCycle.solve Context.lattice 6 = .ok p ∧
      p.waiting = ["c"] ∧ p.facts.lookup "c" = some .universal := ⟨_, rfl, rfl, rfl⟩
  obtain ⟨late, hlate, hlw, hlc⟩ : ∃ q, coolingCycle.solve Context.lattice 9 = .ok q ∧
      q.waiting = [] ∧ q.facts.lookup "c" = some .empty := ⟨_, rfl, rfl, rfl⟩
  obtain rfl : p = early := Except.ok.inj (hp.symm.trans hearly)
  obtain rfl : q = late := Except.ok.inj (hq.symm.trans hlate)
  obtain rfl : r = q := Except.ok.inj (hr.symm.trans hq)
  have hf : f "c" = .empty := Option.some.inj ((hfacts "c" (by decide)).1.symm.trans hlc)
  exact ⟨hc, p, r, hp, hq, hew, hec, hsteps, hlw, hlc, f, hsolves hlw, hf,
    fun h hh => hbelow h hh "c" (by decide)⟩

end FeatureLattice.MustAnalysis
