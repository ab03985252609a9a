import FeatureLattice.Fault
import FeatureLattice.Keyed
import FeatureLattice.Lattice.Contexts

/-!
# Solving a must-analysis

Each node of a flow graph establishes some features. A feature is known to be enabled at the end of
a node if it is on every path from the entry. The solver starts from the greatest fact at every
node and keeps a queue of nodes whose fact may have to come down; a node whose fact has changed
puts its successors back into the queue. A limit on the number of steps makes the run finite
whatever the lattice does; a run that ends early leaves nodes in the queue.
-/
namespace FeatureLattice

/-- A flow graph: its nodes in order, each once and with its successors. -/
structure FlowGraph where
  nodes : List (String × List String)
  nodup : (nodes.map Prod.fst).Nodup

namespace FlowGraph

/-- The graph of a list of nodes with their successors. -/
def ofPairs (pairs : List (String × List String)) : FlowGraph := ⟨keyed pairs, nodup_keyed pairs⟩

def names (g : FlowGraph) : List String := g.nodes.map Prod.fst

/-- The successors of a node, in order. -/
def successors (g : FlowGraph) (node : String) : List String := (g.nodes.lookup node).getD []

/-- The predecessors of a node in the order of the graph, once for each edge. -/
def predecessors (g : FlowGraph) (node : String) : List String :=
  g.nodes.flatMap fun (source, targets) => (targets.filter (· = node)).map fun _ => source

end FlowGraph

/-- What the solver is asked: a flow graph, the features that nodes establish, and the entry. -/
structure MustAnalysis where
  graph : FlowGraph
  gen : List (String × Context)
  entry : String

/-- The analysis of a graph, a table of established features and an entry. -/
def MustAnalysis.ofPairs (nodes : List (String × List String)) (gen : List (String × Context))
    (entry : String) : MustAnalysis :=
  ⟨FlowGraph.ofPairs nodes, keyed gen, entry⟩

/-- Where a run of the solver stands. -/
structure Progress where
  facts : List (String × Context)
  waiting : List String
  steps : Nat

namespace MustAnalysis

/-- The features that a node establishes. -/
def genAt (a : MustAnalysis) (node : String) : Context := (a.gen.lookup node).getD .empty

/-- Every node has the greatest fact and waits for its turn. -/
def start (a : MustAnalysis) (l : MeetSemilattice Context) : Progress :=
  ⟨a.graph.names.map fun node => (node, l.top), a.graph.names, 0⟩

/-- What is known before a node: nothing at the entry, elsewhere what all predecessors agree on. -/
def incoming (a : MustAnalysis) (l : MeetSemilattice Context) (facts : List (String × Context))
    (node : String) : Context :=
  if node = a.entry then .empty
  else l.meetAll ((a.graph.predecessors node).filterMap fun p => facts.lookup p)

/-- What is known after a node. -/
def outgoing (a : MustAnalysis) (l : MeetSemilattice Context) (facts : List (String × Context))
    (node : String) : Context :=
  (a.incoming l facts node).union (a.genAt node)

/-- Put nodes at the end of the queue, unless they wait already. -/
def enqueue (waiting nodes : List String) : List String :=
  nodes.foldl (fun waiting node => if node ∈ waiting then waiting else waiting ++ [node]) waiting

/-- Give a node a new fact. -/
def setFact (facts : List (String × Context)) (node : String) (c : Context) :
    List (String × Context) :=
  facts.map fun (other, d) => if other = node then (other, c) else (other, d)

/-- Take the first waiting node. A successor that is no node of the graph has no fact to compare,
which is a fault. -/
def step (a : MustAnalysis) (l : MeetSemilattice Context) (p : Progress) (node : String)
    (waiting : List String) : Except Fault Progress :=
  match p.facts.lookup node with
  | none => .error (.unknownNode node)
  | some old =>
    let new := a.outgoing l p.facts node
    if l.eq new old then .ok ⟨p.facts, waiting, p.steps + 1⟩
    else .ok ⟨setFact p.facts node new, enqueue waiting (a.graph.successors node), p.steps + 1⟩

/-- Take waiting nodes until none is left, but at most the given number. -/
def run (a : MustAnalysis) (l : MeetSemilattice Context) : Nat → Progress → Except Fault Progress
  | 0, p => .ok p
  | limit + 1, p =>
    match p.waiting with
    | [] => .ok p
    | node :: waiting =>
      match a.step l p node waiting with
      | .error fault => .error fault
      | .ok p => run a l limit p

/-- Solve an analysis within a number of steps. -/
def solve (a : MustAnalysis) (l : MeetSemilattice Context) (limit : Nat) : Except Fault Progress :=
  a.run l limit (a.start l)

end MustAnalysis

end FeatureLattice
