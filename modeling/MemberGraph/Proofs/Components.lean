import MemberGraph.Proofs.TypeCycles

/-!
The cycles of a type graph are the classes of nodes that reach each other. Being connected is
symmetric and transitive, so connected nodes have the same class, and as classes are listed in
ascending order, the same list. A class stands at its least node, once, and the nodes are visited in
ascending order.
-/

set_option autoImplicit false

namespace MemberGraph

open Relation Std

namespace TypeGraph

variable {graph : TypeGraph}

namespace Connected

variable {node other third : Nat}

theorem symm (connected : graph.Connected node other) : graph.Connected other node :=
  ⟨connected.2, connected.1⟩

theorem trans (connected : graph.Connected node other) (further : graph.Connected other third) :
    graph.Connected node third :=
  ⟨connected.1.trans further.1, further.2.trans connected.2⟩

end Connected

theorem Sized.cycleOf_eq (sized : graph.Sized) {node other : Nat}
    (connected : graph.Connected node other) :
    cycleOf graph.reachability node = cycleOf graph.reachability other := by
  refine (pairwise_cycleOf _ node).eq_of_mem_iff (pairwise_cycleOf _ other) fun third => ?_
  rw [sized.mem_cycleOf, sized.mem_cycleOf]
  exact ⟨connected.symm.trans, connected.trans⟩

theorem Sized.mem_cycles_iff (sized : graph.Sized) {cycle : List TypeId} :
    cycle ∈ graph.cycles ↔ ∃ node, graph.Connected node node ∧
      cycle = (cycleOf graph.reachability node).map TypeId.mk := by
  rw [mem_cycles]
  constructor
  · rintro ⟨node, _, first, rfl⟩
    exact ⟨node, sized.mem_cycleOf.mp (List.mem_of_head? first), rfl⟩
  · rintro ⟨node, connected, rfl⟩
    cases listed : cycleOf graph.reachability node with
    | nil =>
        have there := sized.mem_cycleOf.mpr connected
        rw [listed] at there
        cases there
    | cons least rest =>
        have toLeast : graph.Connected node least :=
          sized.mem_cycleOf.mp (listed ▸ List.mem_cons_self)
        obtain ⟨next, edge, _⟩ := TransGen.head'_iff.mp toLeast.2
        rw [sized.cycleOf_eq toLeast] at listed
        exact ⟨least, sized.lt_of_edge edge, by rw [listed, List.head?_cons], by rw [listed]⟩

theorem mem_map_mk {nodes : List Nat} {id : TypeId} :
    id ∈ nodes.map TypeId.mk ↔ id.index ∈ nodes := by
  rw [List.mem_map]
  constructor
  · rintro ⟨node, there, rfl⟩
    exact there
  · intro there
    exact ⟨id.index, there, rfl⟩

theorem Sized.share_cycle_iff (sized : graph.Sized) {id other : TypeId} :
    (∃ cycle ∈ graph.cycles, id ∈ cycle ∧ other ∈ cycle) ↔
      graph.Connected id.index other.index := by
  constructor
  · rintro ⟨cycle, listed, there, thereToo⟩
    obtain ⟨node, _, rfl⟩ := sized.mem_cycles_iff.mp listed
    rw [mem_map_mk, sized.mem_cycleOf] at there thereToo
    exact there.symm.trans thereToo
  · intro connected
    refine ⟨_, sized.mem_cycles_iff.mpr ⟨id.index, connected.trans connected.symm, rfl⟩, ?_, ?_⟩
    · exact mem_map_mk.mpr (sized.mem_cycleOf.mpr (connected.trans connected.symm))
    · exact mem_map_mk.mpr (sized.mem_cycleOf.mpr connected)

theorem Sized.mem_cycle_iff (sized : graph.Sized) {id : TypeId} :
    (∃ cycle ∈ graph.cycles, id ∈ cycle) ↔ TransGen graph.Edge id.index id.index := by
  have shared := @Sized.share_cycle_iff graph sized id id
  rwa [Connected, and_self, exists_congr fun cycle => by rw [and_self]] at shared

/-- What holds of the classes of any two least nodes, in ascending order, holds of any two cycles in
the order of their listing. -/
theorem pairwise_cycles {related : List TypeId → List TypeId → Prop}
    (relates : ∀ node other : Nat, node < other →
      (cycleOf graph.reachability node).head? = some node →
      (cycleOf graph.reachability other).head? = some other →
      related ((cycleOf graph.reachability node).map TypeId.mk)
        ((cycleOf graph.reachability other).map TypeId.mk)) :
    graph.cycles.Pairwise related := by
  rw [cycles, List.pairwise_filterMap]
  refine List.pairwise_lt_range.imp fun {node other} less cycle found otherCycle otherFound => ?_
  obtain ⟨first, here⟩ := Option.ite_none_right_eq_some.mp found
  obtain ⟨otherFirst, otherHere⟩ := Option.ite_none_right_eq_some.mp otherFound
  cases here
  cases otherHere
  exact relates node other less first otherFirst

private theorem Sized.cycles_disjoint (sized : graph.Sized) :
    graph.cycles.Pairwise List.Disjoint := by
  refine pairwise_cycles fun node other less first otherFirst id there thereToo => ?_
  rw [mem_map_mk, sized.mem_cycleOf] at there thereToo
  -- A shared node would make both classes, and with them their least nodes, the same.
  rw [sized.cycleOf_eq (there.trans thereToo.symm), otherFirst, Option.some.injEq] at first
  omega

private theorem cycles_ascending : graph.cycles.Pairwise (List.Lex (·.index < ·.index)) := by
  refine pairwise_cycles fun node other less first otherFirst => ?_
  obtain ⟨rest, listed⟩ := List.head?_eq_some_iff.mp first
  obtain ⟨otherRest, otherListed⟩ := List.head?_eq_some_iff.mp otherFirst
  rw [listed, otherListed, List.map_cons, List.map_cons]
  exact .rel less

private theorem Sized.cycle_ascending (sized : graph.Sized) {cycle : List TypeId}
    (listed : cycle ∈ graph.cycles) : cycle ≠ [] ∧ cycle.Pairwise (·.index < ·.index) := by
  obtain ⟨node, connected, rfl⟩ := sized.mem_cycles_iff.mp listed
  refine ⟨?_, pairwise_map_mk (pairwise_cycleOf _ _)⟩
  exact List.ne_nil_of_mem (mem_map_mk.mpr (sized.mem_cycleOf.mpr connected) : (⟨node⟩ : TypeId) ∈ _)

theorem Sized.isCyclic_iff (sized : graph.Sized) : graph.isCyclic ↔ graph.cycles ≠ [] := by
  rw [isCyclic, List.any_eq_true]
  constructor
  · rintro ⟨node, _, back⟩
    have path := sized.mem_reachable.mp (TreeSet.mem_iff_contains.mpr back)
    exact List.ne_nil_of_mem (sized.mem_cycles_iff.mpr ⟨node, ⟨path, path⟩, rfl⟩)
  · intro some
    obtain ⟨cycle, listed⟩ := List.exists_mem_of_ne_nil _ some
    obtain ⟨node, ⟨path, _⟩, _⟩ := sized.mem_cycles_iff.mp listed
    obtain ⟨next, edge, _⟩ := TransGen.head'_iff.mp path
    exact ⟨node, List.mem_range.mpr (sized.lt_of_edge edge),
      TreeSet.mem_iff_contains.mp (sized.mem_reachable.mpr path)⟩

end TypeGraph

namespace Catalog

/-- Some dependency between types leads from one to the other. -/
def Leads (catalog : Catalog) (type other : TypeId) : Prop :=
  ∃ dependency ∈ catalog.typeDependencies,
    dependency.origin = type ∧ dependency.target = other

theorem WellFormed.path_dependencyGraph {catalog : Catalog} (formed : catalog.WellFormed)
    {type other : TypeId} :
    TransGen catalog.dependencyGraph.Edge type.index other.index ↔
      TransGen catalog.Leads type other := by
  constructor
  · intro path
    exact TransGen.lift (p := catalog.Leads) TypeId.mk
      (fun node next => (@WellFormed.edge_dependencyGraph _ formed ⟨node⟩ ⟨next⟩).mp) _ _ path
  · intro path
    exact TransGen.lift (p := catalog.dependencyGraph.Edge) TypeId.index
      (fun _ _ => formed.edge_dependencyGraph.mpr) _ _ path

end Catalog

open Catalog Analysis

/-- The cycles of the types of a catalog are the strongly connected components of the dependencies
between them, apart from single types that do not depend on themselves. -/
theorem cycles_are_components {catalog : Catalog} (formed : catalog.WellFormed) :
    let graph := catalog.dependencyGraph
    (∀ type, (∃ cycle ∈ graph.cycles, type ∈ cycle) ↔ TransGen catalog.Leads type type) ∧
    (∀ type other, (∃ cycle ∈ graph.cycles, type ∈ cycle ∧ other ∈ cycle) ↔
      ((∃ cycle ∈ graph.cycles, type ∈ cycle) ∧ ∃ cycle ∈ graph.cycles, other ∈ cycle) ∧
        TransGen catalog.Leads type other ∧ TransGen catalog.Leads other type) ∧
    (∀ cycle ∈ graph.cycles, cycle ≠ [] ∧ cycle.Pairwise (·.index < ·.index)) ∧
    graph.cycles.Pairwise List.Disjoint ∧
    graph.cycles.Pairwise (List.Lex (·.index < ·.index)) ∧
    (graph.isCyclic ↔ graph.cycles ≠ []) := by
  intro graph
  have sized : graph.Sized := formed.dependencyGraph_sized
  refine ⟨fun type => ?_, fun type other => ?_, fun cycle => sized.cycle_ascending,
    sized.cycles_disjoint, TypeGraph.cycles_ascending, sized.isCyclic_iff⟩
  · rw [sized.mem_cycle_iff, formed.path_dependencyGraph]
  · rw [sized.share_cycle_iff, sized.mem_cycle_iff, sized.mem_cycle_iff, TypeGraph.Connected,
      formed.path_dependencyGraph, formed.path_dependencyGraph, formed.path_dependencyGraph,
      formed.path_dependencyGraph]
    constructor
    · rintro ⟨there, back⟩
      exact ⟨⟨there.trans back, back.trans there⟩, there, back⟩
    · rintro ⟨_, connected⟩
      exact connected

theorem cycles_are_components_customer :
    ∃ architecture, (Architecture.build {} customerMetadata).1 = .ok architecture ∧
      let catalog := architecture.catalog
      catalog.WellFormed ∧ catalog.dependencyGraph.cycles = [[⟨0⟩, ⟨1⟩]] ∧
        (TransGen catalog.Leads ⟨0⟩ ⟨1⟩ ∧ TransGen catalog.Leads ⟨1⟩ ⟨0⟩) ∧
        ¬TransGen catalog.Leads ⟨2⟩ ⟨2⟩ ∧ catalog.dependencyGraph.isCyclic := by
  obtain ⟨architecture, built, evaluated⟩ := @build_passes {} customerMetadata
    (fun architecture => architecture.catalog.dependencyGraph.cycles = [[⟨0⟩, ⟨1⟩]])
    (by decide +kernel)
  have cycles := of_decide_eq_true evaluated
  have formed := built_wellFormed built
  obtain ⟨onCycle, shared, _, _, _, cyclic⟩ := cycles_are_components formed
  rw [cycles] at onCycle shared cyclic
  refine ⟨architecture, built, formed, cycles, ?_, ?_, ?_⟩
  · exact ((shared ⟨0⟩ ⟨1⟩).mp ⟨_, List.mem_singleton.mpr rfl, by decide, by decide⟩).2
  · rw [← onCycle]
    rintro ⟨cycle, listed, there⟩
    cases List.mem_singleton.mp listed
    exact absurd there (by decide)
  · exact cyclic.mpr (List.cons_ne_nil _ _)

end MemberGraph
