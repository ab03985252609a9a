import FeatureLattice.Solver

/-!
# Flow graphs and their paths

The nodes of a flow graph are a table without repeated keys, so looking a node up finds its only
entry, and the list of predecessors turns the successor relation around. Paths start at the entry
and grow at their end. A graph is closed if every successor is a node of the graph.
-/
namespace FeatureLattice

section Tables

variable {α : Type} {table : List (String × α)} {key : String} {a : α}

theorem mem_of_lookup (h : table.lookup key = some a) : (key, a) ∈ table := by
  obtain ⟨l, r, rfl, -⟩ := List.lookup_eq_some_iff.1 h
  simp

theorem mem_keys_of_lookup (h : table.lookup key = some a) : key ∈ table.map Prod.fst :=
  List.mem_map.2 ⟨_, mem_of_lookup h, rfl⟩

theorem exists_lookup_of_mem_keys (h : key ∈ table.map Prod.fst) :
    ∃ a, table.lookup key = some a := by
  rw [← Option.isSome_iff_exists, List.lookup_isSome_iff]
  obtain ⟨⟨k, a⟩, hm, rfl⟩ := List.mem_map.1 h
  exact ⟨_, hm, by simp⟩

/-- Without repeated keys, every entry of a table is the one that looking up its key finds. -/
theorem lookup_of_mem (hn : (table.map Prod.fst).Nodup) (h : (key, a) ∈ table) :
    table.lookup key = some a := by
  induction table with
  | nil => simp at h
  | cons entry rest ih =>
    obtain ⟨k, b⟩ := entry
    rw [List.map_cons, List.nodup_cons] at hn
    rcases List.mem_cons.1 h with he | hr
    · cases he
      simp
    · have hk : key ≠ k := by
        rintro rfl
        exact hn.1 (List.mem_map.2 ⟨_, hr, rfl⟩)
      have hb : (key == k) = false := beq_eq_false_iff_ne.2 hk
      simpa [List.lookup_cons, hb] using ih hn.2 hr

end Tables

namespace FlowGraph

variable {g : FlowGraph} {m n : String}

theorem mem_successors :
    n ∈ g.successors m ↔ ∃ targets, (m, targets) ∈ g.nodes ∧ n ∈ targets := by
  unfold successors
  constructor
  · intro h
    cases hl : g.nodes.lookup m with
    | none => simp [hl] at h
    | some targets => exact ⟨targets, mem_of_lookup hl, by simpa [hl] using h⟩
  · rintro ⟨targets, hm, hn⟩
    rw [lookup_of_mem g.nodup hm]
    exact hn

theorem mem_names_of_mem_successors (h : n ∈ g.successors m) : m ∈ g.names := by
  obtain ⟨targets, hm, -⟩ := mem_successors.1 h
  exact List.mem_map.2 ⟨_, hm, rfl⟩

theorem mem_predecessors : m ∈ g.predecessors n ↔ n ∈ g.successors m := by
  rw [mem_successors]
  simp only [predecessors, List.mem_flatMap, List.mem_map, List.mem_filter, decide_eq_true_eq]
  constructor
  · rintro ⟨⟨source, targets⟩, hmem, target, ⟨ht, rfl⟩, rfl⟩
    exact ⟨targets, hmem, ht⟩
  · rintro ⟨targets, hmem, ht⟩
    exact ⟨(m, targets), hmem, n, ⟨ht, rfl⟩, rfl⟩

/-- Every listed successor is a node of the graph. -/
def Closed (g : FlowGraph) : Prop := ∀ node ∈ g.nodes, ∀ n ∈ node.2, n ∈ g.names

instance (g : FlowGraph) : Decidable g.Closed :=
  inferInstanceAs (Decidable (∀ node ∈ g.nodes, ∀ n ∈ node.2, n ∈ g.names))

theorem closed_iff : g.Closed ↔ ∀ m n, n ∈ g.successors m → n ∈ g.names := by
  constructor
  · intro hc m n hn
    obtain ⟨targets, hm, ht⟩ := mem_successors.1 hn
    exact hc _ hm n ht
  · rintro h ⟨m, targets⟩ hm n hn
    exact h m n (mem_successors.2 ⟨targets, hm, hn⟩)

/-- The paths of a graph from its entry, each with the node it leads to. -/
inductive Path (g : FlowGraph) (entry : String) : List String → String → Prop
  | start : entry ∈ g.names → Path g entry [entry] entry
  | extend {path : List String} {m n : String} :
      Path g entry path m → n ∈ g.successors m → Path g entry (path ++ [n]) n

end FlowGraph

namespace MustAnalysis

/-- Every path from the entry to a node has a node that establishes the feature. -/
def OnAllPaths (a : MustAnalysis) (n x : String) : Prop :=
  ∀ path, a.graph.Path a.entry path n → ∃ m ∈ path, (a.genAt m).enables x = true

/-- Two analyses that differ at most in the order and repetition of nodes and successors. -/
structure SameFlow (a b : MustAnalysis) : Prop where
  entry : a.entry = b.entry
  names : ∀ n, n ∈ a.graph.names ↔ n ∈ b.graph.names
  successors : ∀ m n, n ∈ a.graph.successors m ↔ n ∈ b.graph.successors m
  gen : ∀ n, a.genAt n = b.genAt n

namespace SameFlow

variable {a b : MustAnalysis}

theorem symm (h : a.SameFlow b) : b.SameFlow a where
  entry := h.entry.symm
  names n := (h.names n).symm
  successors m n := (h.successors m n).symm
  gen n := (h.gen n).symm

theorem closed (h : a.SameFlow b) (hc : a.graph.Closed) : b.graph.Closed :=
  FlowGraph.closed_iff.2 fun m n hn =>
    (h.names n).1 (FlowGraph.closed_iff.1 hc m n ((h.successors m n).2 hn))

theorem path (h : a.SameFlow b) {path : List String} {n : String}
    (hp : a.graph.Path a.entry path n) : b.graph.Path b.entry path n := by
  induction hp with
  | start hm => exact h.entry ▸ .start ((h.names _).1 hm)
  | extend _ hn ih => exact ih.extend ((h.successors _ _).1 hn)

theorem onAllPaths_iff (h : a.SameFlow b) {n x : String} :
    a.OnAllPaths n x ↔ b.OnAllPaths n x := by
  have himp {a b : MustAnalysis} (h : a.SameFlow b) (ha : a.OnAllPaths n x) :
      b.OnAllPaths n x := by
    intro path hp
    obtain ⟨m, hm, hx⟩ := ha path (h.symm.path hp)
    exact ⟨m, hm, h.gen m ▸ hx⟩
  exact ⟨himp h, himp h.symm⟩

end SameFlow

end MustAnalysis

end FeatureLattice
