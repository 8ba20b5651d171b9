import MemberGraph.TypeGraph
import Mathlib

/-!
What a walk of the type graph meets is what can be reached, so its cycles are the classes of nodes that
reach each other. The walk is sound for any number of steps. It is complete because the steps that it
is given suffice: each either drops a pending node that was seen before, or leaves a node for the
first time and replaces it by its successors, of which there are no more than edges.
-/

set_option autoImplicit false

namespace MemberGraph
namespace TypeGraph

open Relation Std

variable {graph : TypeGraph}

def Edge (graph : TypeGraph) (node other : Nat) : Prop := other ∈ graph.next node

/-- The graph has as many successors as nodes and edges allow. -/
structure Sized (graph : TypeGraph) : Prop where
  nodes : graph.successors.size = graph.nodeCount
  edges : ∑ node ∈ Finset.range graph.nodeCount, (graph.next node).size ≤ graph.edgeCount

theorem Sized.next_of_le (sized : graph.Sized) {node : Nat} (outside : graph.nodeCount ≤ node) :
    graph.next node = ∅ := by
  rw [next, Array.getD_eq_getD_getElem?, Array.getElem?_eq_none (by rw [sized.nodes]; exact outside),
    Option.getD_none]

theorem Sized.lt_of_edge (sized : graph.Sized) {node other : Nat} (edge : graph.Edge node other) :
    node < graph.nodeCount := by
  by_contra outside
  rw [Edge, sized.next_of_le (Nat.le_of_not_lt outside)] at edge
  exact TreeSet.not_mem_emptyc edge

private theorem Sized.next_size_le (sized : graph.Sized) (node : Nat) :
    (graph.next node).size ≤ graph.edgeCount := by
  rcases Nat.lt_or_ge node graph.nodeCount with inside | outside
  · calc (graph.next node).size
        ≤ ∑ other ∈ Finset.range graph.nodeCount, (graph.next other).size :=
          Finset.single_le_sum (f := fun other => (graph.next other).size)
            (fun _ _ => Nat.zero_le _) (Finset.mem_range.mpr inside)
      _ ≤ graph.edgeCount := sized.edges
  · rw [sized.next_of_le outside]
    exact Nat.zero_le _

/-! ## Graphs of edges -/

section OfEdges

variable {successors : Array (TreeSet Nat)}

@[simp] theorem size_addEdge (edge : Nat × Nat) :
    (addEdge successors edge).size = successors.size := Array.size_modify

@[simp] theorem size_foldl_addEdge (edges : List (Nat × Nat)) :
    (edges.foldl addEdge successors).size = successors.size := by
  induction edges generalizing successors with
  | nil => rfl
  | cons edge rest ih => rw [List.foldl_cons, ih, size_addEdge]

private theorem getD_addEdge (edge : Nat × Nat) (node : Nat) :
    (addEdge successors edge).getD node ∅ =
      if edge.1 = node ∧ node < successors.size then (successors.getD node ∅).insert edge.2
      else successors.getD node ∅ := by
  simp only [addEdge, Array.getD_eq_getD_getElem?, Array.getElem?_modify]
  by_cases inside : node < successors.size <;> by_cases same : edge.1 = node <;> simp [inside, same]

private theorem mem_foldl_addEdge (edges : List (Nat × Nat)) (node other : Nat) :
    other ∈ (edges.foldl addEdge successors).getD node ∅ ↔
      other ∈ successors.getD node ∅ ∨ node < successors.size ∧ (node, other) ∈ edges := by
  induction edges generalizing successors with
  | nil => simp
  | cons edge rest ih =>
      rw [List.foldl_cons, ih, size_addEdge, getD_addEdge, List.mem_cons]
      have given : (node, other) = edge ↔ edge.1 = node ∧ edge.2 = other := by
        rw [eq_comm, Prod.ext_iff]
      split
      · next here =>
          simp only [TreeSet.mem_insert, Nat.compare_eq_eq, given, here.1, here.2, true_and]
          tauto
      · next elsewhere =>
          rw [given]
          tauto

private theorem sum_size_addEdge (edge : Nat × Nat) (count : Nat) :
    ∑ node ∈ Finset.range count, ((addEdge successors edge).getD node ∅).size ≤
      (∑ node ∈ Finset.range count, (successors.getD node ∅).size) + 1 := by
  calc ∑ node ∈ Finset.range count, ((addEdge successors edge).getD node ∅).size
      ≤ ∑ node ∈ Finset.range count,
          ((successors.getD node ∅).size + if edge.1 = node then 1 else 0) := by
        refine Finset.sum_le_sum fun node _ => ?_
        rw [getD_addEdge]
        split
        · next here =>
            rw [if_pos here.1]
            exact TreeSet.size_insert_le
        · exact Nat.le_add_right _ _
    _ = (∑ node ∈ Finset.range count, (successors.getD node ∅).size) +
          ∑ node ∈ Finset.range count, if edge.1 = node then 1 else 0 := Finset.sum_add_distrib
    _ ≤ (∑ node ∈ Finset.range count, (successors.getD node ∅).size) + 1 := by
        apply Nat.add_le_add_left
        rw [Finset.sum_ite_eq]
        split <;> simp

private theorem sum_size_foldl_addEdge (edges : List (Nat × Nat)) (count : Nat) :
    ∑ node ∈ Finset.range count, ((edges.foldl addEdge successors).getD node ∅).size ≤
      (∑ node ∈ Finset.range count, (successors.getD node ∅).size) + edges.length := by
  induction edges generalizing successors with
  | nil => exact Nat.le_refl _
  | cons edge rest ih =>
      have further := @ih (addEdge successors edge)
      have added := @sum_size_addEdge successors edge count
      rw [List.foldl_cons, List.length_cons]
      omega

end OfEdges

private theorem getD_replicate_empty (count node : Nat) :
    (Array.replicate count (∅ : TreeSet Nat)).getD node ∅ = ∅ := by
  rw [Array.getD_eq_getD_getElem?, Array.getElem?_replicate]
  split <;> rfl

theorem ofEdges_sized (nodeCount : Nat) (edges : List (Nat × Nat)) :
    (ofEdges nodeCount edges).Sized := by
  constructor
  · simp [ofEdges]
  · refine (sum_size_foldl_addEdge edges nodeCount).trans ?_
    simp only [getD_replicate_empty, TreeSet.size_emptyc, Finset.sum_const_zero, Nat.zero_add]
    exact Nat.le_refl _

theorem edge_ofEdges {nodeCount : Nat} {edges : List (Nat × Nat)} {node other : Nat} :
    (ofEdges nodeCount edges).Edge node other ↔ node < nodeCount ∧ (node, other) ∈ edges := by
  rw [Edge, next, ofEdges, mem_foldl_addEdge, getD_replicate_empty, Array.size_replicate]
  simp [TreeSet.not_mem_emptyc]

/-! ## Walks -/

def unseen (graph : TypeGraph) (seen : TreeSet Nat) : Nat :=
  ∑ node ∈ Finset.range graph.nodeCount, if node ∈ seen then 0 else (graph.next node).size

private theorem Sized.unseen_insert (sized : graph.Sized) {seen : TreeSet Nat} {node : Nat}
    (fresh : node ∉ seen) :
    graph.unseen seen = graph.unseen (seen.insert node) + (graph.next node).size := by
  have split : ∀ other, (if other ∈ seen then 0 else (graph.next other).size) =
      (if other ∈ seen.insert node then 0 else (graph.next other).size) +
        if node = other then (graph.next node).size else 0 := by
    intro other
    by_cases same : node = other
    · subst same
      simp [fresh, TreeSet.mem_insert]
    · simp [TreeSet.mem_insert, same]
  rw [unseen, Finset.sum_congr rfl fun other _ => split other, Finset.sum_add_distrib,
    Finset.sum_ite_eq, unseen]
  split
  · rfl
  · next outside =>
      rw [sized.next_of_le (by simpa using outside)]
      rfl

def Noted (seen : TreeSet Nat) (pending : List Nat) (node : Nat) : Prop :=
  node ∈ seen ∨ node ∈ pending

theorem Noted.dropped {seen : TreeSet Nat} {pending : List Nat} {node other : Nat}
    (noted : Noted seen (node :: pending) other) (known : node ∈ seen) : Noted seen pending other := by
  rcases noted with there | waiting
  · exact .inl there
  · rcases List.mem_cons.mp waiting with rfl | waiting
    · exact .inl known
    · exact .inr waiting

theorem Noted.left {seen : TreeSet Nat} {pending : List Nat} {node other : Nat}
    (noted : Noted seen (node :: pending) other) (next : List Nat) :
    Noted (seen.insert node) (next ++ pending) other := by
  rw [Noted, TreeSet.mem_insert, Nat.compare_eq_eq, List.mem_append]
  rcases noted with there | waiting
  · exact .inl (.inr there)
  · rcases List.mem_cons.mp waiting with rfl | waiting
    · exact .inl (.inl rfl)
    · exact .inr (.inr waiting)

/-- A walk keeps what was noted and ends with a set that no edge leaves. Before each step, edges from
nodes that were seen lead to nodes that are noted. -/
theorem Sized.walk_closed (sized : graph.Sized) {steps : Nat} {pending : List Nat}
    {seen : TreeSet Nat} (enough : pending.length + graph.unseen seen ≤ steps)
    (frontier : ∀ node ∈ seen, ∀ other, graph.Edge node other → Noted seen pending other) :
    (∀ node, Noted seen pending node → node ∈ graph.walk steps pending seen) ∧
      ∀ node ∈ graph.walk steps pending seen, ∀ other, graph.Edge node other →
        other ∈ graph.walk steps pending seen := by
  induction steps generalizing pending seen with
  | zero =>
      have nothing : pending = [] := List.length_eq_zero_iff.mp (by omega)
      subst nothing
      simpa [walk, Noted] using frontier
  | succ steps ih =>
      cases pending with
      | nil => simpa [walk, Noted] using frontier
      | cons node pending =>
          rw [List.length_cons] at enough
          rw [walk]
          split
          · next known =>
              have here : node ∈ seen := TreeSet.mem_iff_contains.mpr known
              obtain ⟨kept, closed⟩ := @ih pending seen (by omega)
                fun one there other edge => (frontier one there other edge).dropped here
              exact ⟨fun other noted => kept other (noted.dropped here), closed⟩
          · next unknown =>
              have fresh : node ∉ seen := fun there => unknown (TreeSet.mem_iff_contains.mp there)
              have less : ((graph.next node).toList ++ pending).length +
                  graph.unseen (seen.insert node) ≤ steps := by
                rw [List.length_append, TreeSet.length_toList]
                rw [sized.unseen_insert fresh] at enough
                omega
              obtain ⟨kept, closed⟩ := ih less fun one there other edge => by
                rw [TreeSet.mem_insert, Nat.compare_eq_eq] at there
                rcases there with rfl | before
                · exact .inr (List.mem_append_left _ (TreeSet.mem_toList.mpr edge))
                · exact (frontier one before other edge).left _
              exact ⟨fun other noted => kept other (noted.left _), closed⟩

private theorem walk_reaches {steps : Nat} {pending : List Nat} {seen : TreeSet Nat} {node : Nat}
    (met : node ∈ graph.walk steps pending seen) :
    node ∈ seen ∨ ∃ start ∈ pending, ReflTransGen graph.Edge start node := by
  induction steps generalizing pending seen with
  | zero => exact .inl met
  | succ steps ih =>
      cases pending with
      | nil => exact .inl met
      | cons first pending =>
          rw [walk] at met
          split at met
          · rcases ih met with before | ⟨start, waiting, path⟩
            · exact .inl before
            · exact .inr ⟨start, List.mem_cons_of_mem _ waiting, path⟩
          · rcases ih met with before | ⟨start, waiting, path⟩
            · rw [TreeSet.mem_insert, Nat.compare_eq_eq] at before
              rcases before with rfl | before
              · exact .inr ⟨first, List.mem_cons_self .., .refl⟩
              · exact .inl before
            · rcases List.mem_append.mp waiting with after | waiting
              · exact .inr ⟨first, List.mem_cons_self .., .head (TreeSet.mem_toList.mp after) path⟩
              · exact .inr ⟨start, List.mem_cons_of_mem _ waiting, path⟩

theorem Sized.mem_reachable (sized : graph.Sized) {node other : Nat} :
    other ∈ graph.reachable node ↔ TransGen graph.Edge node other := by
  rw [TransGen.head'_iff]
  constructor
  · intro met
    rcases walk_reaches met with nowhere | ⟨start, after, path⟩
    · exact absurd nowhere TreeSet.not_mem_emptyc
    · exact ⟨start, TreeSet.mem_toList.mp after, path⟩
  · rintro ⟨start, edge, path⟩
    have enough : (graph.next node).toList.length + graph.unseen ∅ ≤ 2 * graph.edgeCount + 1 := by
      have all := sized.edges
      have own := sized.next_size_le node
      rw [TreeSet.length_toList]
      simp only [unseen, TreeSet.not_mem_emptyc, if_false]
      omega
    obtain ⟨kept, closed⟩ := sized.walk_closed enough
      fun one there => absurd there TreeSet.not_mem_emptyc
    induction path with
    | refl => exact kept start (.inr (TreeSet.mem_toList.mpr edge))
    | tail _ last ih => exact closed _ ih _ last

/-! ## Cycles -/

private theorem Sized.mem_reachability (sized : graph.Sized) {node other : Nat} :
    other ∈ graph.reachability.getD node ∅ ↔ TransGen graph.Edge node other := by
  rw [reachability, Array.getD_eq_getD_getElem?, Array.getElem?_map]
  rcases Nat.lt_or_ge node graph.nodeCount with inside | outside
  · rw [Array.getElem?_range, if_pos inside]
    exact sized.mem_reachable
  · rw [Array.getElem?_eq_none (by simpa using outside)]
    refine iff_of_false TreeSet.not_mem_emptyc fun path => ?_
    obtain ⟨next, edge, _⟩ := TransGen.head'_iff.mp path
    exact absurd (sized.lt_of_edge edge) (Nat.not_lt.mpr outside)

def Connected (graph : TypeGraph) (node other : Nat) : Prop :=
  TransGen graph.Edge node other ∧ TransGen graph.Edge other node

theorem Sized.mem_cycleOf (sized : graph.Sized) {node other : Nat} :
    other ∈ cycleOf graph.reachability node ↔ graph.Connected node other := by
  rw [cycleOf, List.mem_filter, TreeSet.mem_toList, ← TreeSet.mem_iff_contains,
    sized.mem_reachability, sized.mem_reachability, Connected]

private theorem pairwise_toList (nodes : TreeSet Nat) : nodes.toList.Pairwise (· < ·) :=
  TreeSet.ordered_toList.imp Nat.compare_eq_lt.mp

theorem pairwise_cycleOf (reachability : Array (TreeSet Nat)) (node : Nat) :
    (cycleOf reachability node).Pairwise (· < ·) :=
  (pairwise_toList _).filter _

theorem mem_cycles {cycle : List TypeId} : cycle ∈ graph.cycles ↔
    ∃ node < graph.nodeCount, (cycleOf graph.reachability node).head? = some node ∧
      cycle = (cycleOf graph.reachability node).map TypeId.mk := by
  simp only [cycles, List.mem_filterMap, List.mem_range, Option.ite_none_right_eq_some,
    Option.some.injEq, @eq_comm _ cycle]

/-! ## Neighbours -/

theorem mem_targetsOf {id other : TypeId} :
    other ∈ graph.targetsOf id ↔ graph.Edge id.index other.index := by
  rw [targetsOf, List.mem_map]
  constructor
  · rintro ⟨node, there, rfl⟩
    exact TreeSet.mem_toList.mp there
  · intro edge
    exact ⟨other.index, TreeSet.mem_toList.mpr edge, rfl⟩

theorem Sized.mem_sourcesOf (sized : graph.Sized) {id other : TypeId} :
    other ∈ graph.sourcesOf id ↔ graph.Edge other.index id.index := by
  rw [sourcesOf, List.mem_map]
  constructor
  · rintro ⟨node, there, rfl⟩
    exact TreeSet.mem_iff_contains.mpr (List.mem_filter.mp there).2
  · intro edge
    refine ⟨other.index, List.mem_filter.mpr ⟨?_, TreeSet.mem_iff_contains.mp edge⟩, rfl⟩
    exact List.mem_range.mpr (sized.lt_of_edge edge)

theorem pairwise_map_mk {nodes : List Nat} (ascending : nodes.Pairwise (· < ·)) :
    (nodes.map TypeId.mk).Pairwise (·.index < ·.index) := by
  rw [List.pairwise_map]
  exact ascending

theorem pairwise_targetsOf (id : TypeId) :
    (graph.targetsOf id).Pairwise (·.index < ·.index) :=
  pairwise_map_mk (pairwise_toList _)

theorem pairwise_sourcesOf (id : TypeId) :
    (graph.sourcesOf id).Pairwise (·.index < ·.index) :=
  pairwise_map_mk (List.pairwise_lt_range.filter _)

end TypeGraph
end MemberGraph
