import MemberGraph.Catalog.Basic
import Std.Data.TreeSet

/-!
The graph of types: an edge for each dependency between two types of a catalog. Its cycles are the
classes of types that reach each other.
-/

set_option autoImplicit false

namespace MemberGraph

/-- A graph on the types of a catalog, which are its nodes `0, 1, …` -/
structure TypeGraph where
  nodeCount : Nat
  /-- How many edges there are, parallel ones counted. -/
  edgeCount : Nat
  /-- The nodes that the edges of each node lead to. -/
  successors : Array (Std.TreeSet Nat)

namespace TypeGraph

def addEdge (successors : Array (Std.TreeSet Nat)) (edge : Nat × Nat) : Array (Std.TreeSet Nat) :=
  successors.modify edge.1 (·.insert edge.2)

def ofEdges (nodeCount : Nat) (edges : List (Nat × Nat)) : TypeGraph where
  nodeCount
  edgeCount := edges.length
  successors := edges.foldl addEdge (Array.replicate nodeCount ∅)

/-- The successors of a node; a number that is no node has none. -/
def next (graph : TypeGraph) (node : Nat) : Std.TreeSet Nat := graph.successors.getD node ∅

def targetsOf (graph : TypeGraph) (id : TypeId) : List TypeId :=
  (graph.next id.index).toList.map TypeId.mk

def sourcesOf (graph : TypeGraph) (id : TypeId) : List TypeId :=
  ((List.range graph.nodeCount).filter fun node => (graph.next node).contains id.index).map
    TypeId.mk

/-- Walks the graph from the nodes in `pending`, and adds what it meets to `seen`. -/
def walk (graph : TypeGraph) : Nat → List Nat → Std.TreeSet Nat → Std.TreeSet Nat
  | 0, _, seen => seen
  | _ + 1, [], seen => seen
  | fuel + 1, node :: pending, seen =>
    if seen.contains node then graph.walk fuel pending seen
    else graph.walk fuel ((graph.next node).toList ++ pending) (seen.insert node)

/-- The nodes at the end of a path of one edge at least. Each node is left once, so no more steps
are needed than there are edges from the start and edges in all. -/
def reachable (graph : TypeGraph) (node : Nat) : Std.TreeSet Nat :=
  graph.walk (2 * graph.edgeCount + 1) (graph.next node).toList ∅

def reachability (graph : TypeGraph) : Array (Std.TreeSet Nat) :=
  (Array.range graph.nodeCount).map graph.reachable

def isCyclic (graph : TypeGraph) : Bool :=
  (List.range graph.nodeCount).any fun node => (graph.reachable node).contains node

def cycleOf (reachability : Array (Std.TreeSet Nat)) (node : Nat) : List Nat :=
  (reachability.getD node ∅).toList.filter fun other => (reachability.getD other ∅).contains node

/-- The classes of types that reach each other, each in ascending order and listed at its least
type. -/
def cycles (graph : TypeGraph) : List (List TypeId) :=
  let reachability := graph.reachability
  (List.range graph.nodeCount).filterMap fun node =>
    let cycle := cycleOf reachability node
    if cycle.head? = some node then some (cycle.map TypeId.mk) else none

end TypeGraph

def Catalog.dependencyGraph (catalog : Catalog) : TypeGraph :=
  let edges := catalog.types.toList.flatMap fun entry =>
    entry.dependencies.toList.filterMap fun dependency =>
      if catalog.hasType dependency.origin ∧ catalog.hasType dependency.target then
        some (dependency.origin.index, dependency.target.index)
      else
        none
  .ofEdges catalog.types.size edges

end MemberGraph
