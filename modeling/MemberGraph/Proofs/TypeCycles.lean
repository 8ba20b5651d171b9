import MemberGraph.Report.Basic
import MemberGraph.Proofs.NamedArchitecture
import MemberGraph.Proofs.Reachability

/-!
The graph of types after a build. Its edges are the crossings, so that both lists of a type and both
directions of the graph agree. A crossing leaves its type, and a type that is only referred to has
none; so a cycle has two types at least, which are all defined.
-/

set_option autoImplicit false

namespace MemberGraph

open TypeGraph Relation

namespace Catalog

def typeDependencies (catalog : Catalog) : List TypeDependency :=
  catalog.types.toList.flatMap (·.dependencies.toList)

section Graph

variable {catalog : Catalog}

private theorem type?_of_mem {entry : TypeEntry} (there : entry ∈ catalog.types.toList) :
    ∃ id, catalog.type? id = some entry := by
  obtain ⟨index, found⟩ := List.getElem?_of_mem there
  exact ⟨⟨index⟩, by rwa [type?, ← Array.getElem?_toList]⟩

private theorem mem_typeDependencies {dependency : TypeDependency} :
    dependency ∈ catalog.typeDependencies ↔
      ∃ id entry, catalog.type? id = some entry ∧ dependency ∈ entry.dependencies := by
  rw [typeDependencies, List.mem_flatMap]
  constructor
  · rintro ⟨entry, there, listed⟩
    obtain ⟨id, found⟩ := type?_of_mem there
    exact ⟨id, entry, found, Array.mem_toList_iff.mp listed⟩
  · rintro ⟨id, entry, found, listed⟩
    exact ⟨entry, Array.mem_toList_iff.mpr (Array.mem_of_getElem? found),
      Array.mem_toList_iff.mpr listed⟩

theorem WellFormed.dependencyGraph_eq (formed : catalog.WellFormed) :
    catalog.dependencyGraph = .ofEdges catalog.types.size
      (catalog.typeDependencies.map fun dependency =>
        (dependency.origin.index, dependency.target.index)) := by
  rw [dependencyGraph, typeDependencies, List.map_flatMap]
  congr 1
  refine List.flatMap_congr fun entry there => ?_
  obtain ⟨id, found⟩ := type?_of_mem there
  rw [← List.filterMap_eq_map]
  refine List.filterMap_congr fun dependency listed => ?_
  obtain ⟨origin, target, _⟩ :=
    (formed.knowsType found).dependencies dependency (Array.mem_toList_iff.mp listed)
  exact if_pos ⟨origin, target⟩

theorem WellFormed.dependencyGraph_sized (formed : catalog.WellFormed) :
    catalog.dependencyGraph.Sized := by
  rw [formed.dependencyGraph_eq]
  exact ofEdges_sized _ _

theorem WellFormed.edge_dependencyGraph (formed : catalog.WellFormed) {origin target : TypeId} :
    catalog.dependencyGraph.Edge origin.index target.index ↔
      ∃ dependency ∈ catalog.typeDependencies,
        dependency.origin = origin ∧ dependency.target = target := by
  rw [formed.dependencyGraph_eq, edge_ofEdges, List.mem_map]
  constructor
  · rintro ⟨_, dependency, listed, same⟩
    obtain ⟨left, right⟩ := Prod.mk.inj same
    exact ⟨dependency, listed, congrArg TypeId.mk left, congrArg TypeId.mk right⟩
  · rintro ⟨dependency, listed, rfl, rfl⟩
    obtain ⟨id, entry, found, there⟩ := mem_typeDependencies.mp listed
    have known := (formed.knowsType found).dependencies dependency there
    exact ⟨hasType_iff_lt.mp known.1, dependency, listed, rfl⟩

end Graph

end Catalog

namespace TypeGraph

variable {graph : TypeGraph}

private theorem two_le_length_of_mem {α : Type} {values : List α} {first second : α}
    (there : first ∈ values)
    (thereToo : second ∈ values) (different : first ≠ second) : 2 ≤ values.length := by
  cases values with
  | nil => cases there
  | cons one rest =>
      cases rest with
      | nil =>
          rw [List.mem_singleton] at there thereToo
          exact absurd (there.trans thereToo.symm) different
      | cons other rest => simp

/-- A cycle of a graph without loops has two nodes at least, each of which has an edge. -/
theorem Sized.cycle_of_loopless (sized : graph.Sized) (loopless : ∀ node, ¬graph.Edge node node)
    {cycle : List TypeId} (listed : cycle ∈ graph.cycles) :
    2 ≤ cycle.length ∧ cycle.Pairwise (·.index < ·.index) ∧
      ∀ id ∈ cycle, ∃ other, graph.Edge id.index other := by
  obtain ⟨node, _, first, rfl⟩ := mem_cycles.mp listed
  have here : node ∈ cycleOf graph.reachability node := List.mem_of_head? first
  refine ⟨?_, pairwise_map_mk (pairwise_cycleOf _ _), fun id there => ?_⟩
  · -- The second node of a way back is on the cycle too.
    obtain ⟨next, edge, path⟩ := TransGen.head'_iff.mp (sized.mem_cycleOf.mp here).1
    have different : node ≠ next := by
      rintro rfl
      exact loopless node edge
    have back : TransGen graph.Edge next node :=
      (reflTransGen_iff_eq_or_transGen.mp path).resolve_left different
    rw [List.length_map]
    exact two_le_length_of_mem here (sized.mem_cycleOf.mpr ⟨.single edge, back⟩) different
  · obtain ⟨other, member, rfl⟩ := List.mem_map.mp there
    obtain ⟨next, edge, _⟩ := TransGen.head'_iff.mp (sized.mem_cycleOf.mp member).2
    exact ⟨next, edge⟩

end TypeGraph

/-! ## Crossings -/

namespace Catalog

/-- Crossings are recorded at the types that they leave and at those that they lead to, and nothing
else is. -/
structure Turned (catalog : Catalog) (recorded : List TypeDependency) : Prop where
  subset : recorded ⊆ catalog.crossings
  dependencies : ∀ {id entry}, catalog.type? id = some entry →
    entry.dependencies.toList = recorded.filter (·.origin = id)
  backwards : ∀ {id entry}, catalog.type? id = some entry →
    entry.backwards.toList = recorded.filter (·.target = id)

namespace Turned

variable {catalog : Catalog} {recorded : List TypeDependency} (turned : catalog.Turned recorded)
include turned

theorem mem_dependencies {id : TypeId} {entry : TypeEntry} (found : catalog.type? id = some entry)
    {dependency : TypeDependency} :
    dependency ∈ entry.dependencies ↔ dependency ∈ recorded ∧ dependency.origin = id := by
  rw [← Array.mem_toList_iff, turned.dependencies found, List.mem_filter, decide_eq_true_iff]

private theorem mem_backwards {id : TypeId} {entry : TypeEntry}
    (found : catalog.type? id = some entry) {dependency : TypeDependency} :
    dependency ∈ entry.backwards ↔ dependency ∈ recorded ∧ dependency.target = id := by
  rw [← Array.mem_toList_iff, turned.backwards found, List.mem_filter, decide_eq_true_iff]

theorem leads_iff {id : TypeId} {entry : TypeEntry} (found : catalog.type? id = some entry)
    {target : TypeId} :
    (∃ dependency ∈ entry.dependencies, dependency.target = target) ↔
      ∃ crossing ∈ recorded, crossing.origin = id ∧ crossing.target = target := by
  simp only [turned.mem_dependencies found, and_assoc]

theorem comes_iff {id : TypeId} {entry : TypeEntry} (found : catalog.type? id = some entry)
    {origin : TypeId} :
    (∃ dependency ∈ entry.backwards, dependency.origin = origin) ↔
      ∃ crossing ∈ recorded, crossing.origin = origin ∧ crossing.target = id := by
  simp only [turned.mem_backwards found, and_assoc, and_comm (a := _ = origin)]

theorem edge_iff (formed : catalog.WellFormed) {origin target : TypeId} :
    catalog.dependencyGraph.Edge origin.index target.index ↔
      ∃ crossing ∈ recorded, crossing.origin = origin ∧ crossing.target = target := by
  have same : ∀ crossing, crossing ∈ catalog.typeDependencies ↔ crossing ∈ recorded := by
    intro crossing
    rw [mem_typeDependencies]
    constructor
    · rintro ⟨id, entry, found, there⟩
      exact ((turned.mem_dependencies found).mp there).1
    · intro there
      obtain ⟨entry, found⟩ := hasType_iff.mp (crossings_known formed (turned.subset there)).1
      exact ⟨crossing.origin, entry, found, (turned.mem_dependencies found).mpr ⟨there, rfl⟩⟩
  simp only [formed.edge_dependencyGraph, same]

theorem loopless (formed : catalog.WellFormed) (node : Nat) :
    ¬catalog.dependencyGraph.Edge node node := by
  intro edge
  obtain ⟨crossing, there, origin, target⟩ := (@edge_iff _ _ turned formed ⟨node⟩ ⟨node⟩).mp edge
  exact crossings_leave (turned.subset there) (origin.trans target.symm)

end Turned

end Catalog

/-! ## Builds -/

namespace Analysis

open Catalog

section Built

variable {options : Options} {metadata : Metadata} {architecture : Architecture}
  (built : (Architecture.build options metadata).1 = .ok architecture)
include built

theorem built_turned : ∃ recorded, architecture.catalog.Turned recorded := by
  have crossings := @built_crossings options metadata architecture built
  cases wanted : options.linkBackwards with
  | true =>
      simp only [wanted, if_true] at crossings
      exact ⟨_, fun _ there => there, fun found => (crossings found).1,
        fun found => (crossings found).2⟩
  | false =>
      simp only [wanted, Bool.false_eq_true, if_false] at crossings
      exact ⟨[], List.nil_subset _, fun found => (crossings found).1,
        fun found => (crossings found).2⟩

theorem built_crossing_defined {crossing : TypeDependency}
    (there : crossing ∈ architecture.catalog.crossings) :
    ∃ entry, architecture.catalog.type? crossing.origin = some entry ∧ entry.isStub = false ∧
      metadata.defines entry.fullName := by
  have formed := built_wellFormed built
  obtain ⟨holder, listed, held, leaves, _⟩ := crossings_held there
  obtain ⟨entry, found⟩ := hasType_iff.mp (crossings_known formed there).1
  have notStub : entry.isStub = false := by
    by_contra stub
    have onStub : architecture.catalog.isStubType holder.declaringType :=
      isStubType_iff.mpr ⟨entry, leaves ▸ found, by simpa using stub⟩
    rw [built_stubsBare built (formed.member?_of_mem listed) onStub] at held
    exact Array.not_mem_empty _ held
  refine ⟨entry, found, notStub, ?_⟩
  -- Types that are not defined stand behind those that are, and are stubs.
  have early : crossing.origin.index < metadata.firstTypes.length := by
    by_contra late
    have stub := (built_stubTypes built _ entry found (Nat.le_of_not_lt late)).1
    rw [notStub] at stub
    cases stub
  obtain ⟨first, _, _, _, extended, final⟩ := built_type? built (List.getElem?_eq_getElem early)
  rw [found] at final
  cases final
  rw [Metadata.defines, Metadata.definitions_eq, List.any_map]
  refine (any_firstOf metadata.namedDefinitions first.fullName).symm.trans ?_
  refine List.any_eq_true.mpr ⟨_, List.getElem_mem early, decide_eq_true ?_⟩
  exact extended.fullName.symm

theorem built_stub_dependencies {id : TypeId} {entry : TypeEntry}
    (found : architecture.catalog.type? id = some entry) (stub : entry.isStub) :
    entry.dependencies = #[] := by
  obtain ⟨recorded, turned⟩ := built_turned built
  refine Array.eq_empty_iff_forall_not_mem.mpr fun dependency there => ?_
  obtain ⟨crosses, rfl⟩ := (turned.mem_dependencies found).mp there
  obtain ⟨same, sameFound, notStub, _⟩ := built_crossing_defined built (turned.subset crosses)
  rw [found] at sameFound
  cases sameFound
  rw [notStub] at stub
  cases stub

end Built

end Analysis

open Catalog Analysis

/-- After a build the graph of types says what the types say in both directions. Only types that the
metadata defines depend on others, and none on itself, so cycles consist of several defined types. -/
theorem type_graph_agrees {options : Options} {metadata : Metadata} {architecture : Architecture}
    (built : (Architecture.build options metadata).1 = .ok architecture) :
    let catalog := architecture.catalog
    let graph := catalog.dependencyGraph
    (∀ id entry, catalog.type? id = some entry →
      (entry.isStub → entry.dependencies = #[]) ∧
      ∀ dependency ∈ entry.dependencies, dependency.origin = id ∧ dependency.target ≠ id) ∧
    (∀ cycle ∈ graph.cycles, 2 ≤ cycle.length ∧ cycle.Pairwise (·.index < ·.index) ∧
      ∀ id ∈ cycle, ∃ entry, catalog.type? id = some entry ∧ entry.isStub = false ∧
        metadata.defines entry.fullName) ∧
    (∀ id other entry otherEntry, catalog.type? id = some entry →
      catalog.type? other = some otherEntry →
      (other ∈ graph.targetsOf id ↔ id ∈ graph.sourcesOf other) ∧
      (id ∈ graph.sourcesOf other ↔
        ∃ dependency ∈ entry.dependencies, dependency.target = other) ∧
      ((∃ dependency ∈ entry.dependencies, dependency.target = other) ↔
        ∃ dependency ∈ otherEntry.backwards, dependency.origin = id)) ∧
    (∀ id, (graph.targetsOf id).Pairwise (·.index < ·.index) ∧
      (graph.sourcesOf id).Pairwise (·.index < ·.index)) ∧
    ∀ sourcePath, graph.edgeCount =
      (Project.mk sourcePath architecture).summary.typeDependencyCount := by
  intro catalog graph
  have formed : catalog.WellFormed := built_wellFormed built
  have sized : graph.Sized := formed.dependencyGraph_sized
  obtain ⟨recorded, turned⟩ := built_turned built
  refine ⟨fun id entry found => ⟨built_stub_dependencies built found, fun dependency there => ?_⟩,
    fun cycle listed => ?_, fun id other entry otherEntry found otherFound => ⟨?_, ?_, ?_⟩,
    fun id => ⟨pairwise_targetsOf id, pairwise_sourcesOf id⟩, fun sourcePath => ?_⟩
  · obtain ⟨crosses, rfl⟩ := (turned.mem_dependencies found).mp there
    exact ⟨rfl, (crossings_leave (turned.subset crosses)).symm⟩
  · obtain ⟨several, ascending, edges⟩ := sized.cycle_of_loopless (turned.loopless formed) listed
    refine ⟨several, ascending, fun id there => ?_⟩
    obtain ⟨next, edge⟩ := edges id there
    obtain ⟨crossing, crosses, rfl, _⟩ := (@Turned.edge_iff _ _ turned formed id ⟨next⟩).mp edge
    exact built_crossing_defined built (turned.subset crosses)
  · rw [mem_targetsOf, sized.mem_sourcesOf]
  · rw [sized.mem_sourcesOf, turned.edge_iff formed, turned.leads_iff found]
  · rw [turned.leads_iff found, turned.comes_iff otherFound]
  · show (catalog.dependencyGraph).edgeCount = _
    rw [formed.dependencyGraph_eq]
    exact List.length_map _

/-- A customer has orders and an order has its customer; both use texts, which are not defined. -/
def customerMetadata : Metadata :=
  let customer : TypeReference := { fullName := "Shop.Customer" }
  let order : TypeReference := { fullName := "Shop.Order" }
  let text : TypeReference := { fullName := "Sys.Text" }
  { assemblies :=
      [{ name := "shop"
         types :=
          [{ fullName := customer.fullName
             methods := [.ofSignature customer "LastOrder" order [text]] },
            { fullName := order.fullName
              fields :=
                [{ name := "_customer", fullName := "Shop.Order::_customer", fieldType := customer }]
              methods := [.ofSignature order "Note" text []] }] }] }

theorem type_graph_agrees_customer :
    ∃ architecture, (Architecture.build {} customerMetadata).1 = .ok architecture ∧
      let graph := architecture.catalog.dependencyGraph
      graph.cycles = [[⟨0⟩, ⟨1⟩]] ∧
      (∀ id ∈ [(⟨0⟩ : TypeId), ⟨1⟩], ∃ entry, architecture.catalog.type? id = some entry ∧
        entry.isStub = false ∧ customerMetadata.defines entry.fullName) ∧
      (Project.mk "shop.json" architecture).summary.typeDependencyCount = 4 := by
  obtain ⟨architecture, built, evaluated⟩ := @build_passes {} customerMetadata
    (fun architecture => architecture.catalog.dependencyGraph.cycles = [[⟨0⟩, ⟨1⟩]] &&
      architecture.catalog.dependencyGraph.edgeCount = 4)
    (by decide +kernel)
  simp only [Bool.and_eq_true, decide_eq_true_eq] at evaluated
  obtain ⟨_, cycles, _, _, counts⟩ := type_graph_agrees built
  refine ⟨architecture, built, evaluated.1, ?_, ?_⟩
  · exact (cycles [⟨0⟩, ⟨1⟩] (by rw [evaluated.1]; exact List.mem_singleton.mpr rfl)).2.2
  · rw [← counts "shop.json"]
    exact evaluated.2

end MemberGraph
