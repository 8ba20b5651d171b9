import MemberGraph.Proofs.Entries
import MemberGraph.Proofs.DeclaredDependencies
import Mathlib

/-!
Dependencies turned around are the mirror of those that members hold. The pass writes to members and
to both ends of a crossing in one loop; in the end every list is a sublist of what was held, in the
same order, and nothing else has changed.
-/

set_option autoImplicit false

namespace MemberGraph

def Dependency.callee? : Dependency → Option MemberId
  | .onType _ _ _ => none
  | .call _ target => some target

namespace Catalog

def held (catalog : Catalog) : List (Member × Dependency) :=
  catalog.members.toList.flatMap fun member => member.dependencies.toList.map (member, ·)

def callsOf (catalog : Catalog) (id : MemberId) : List Dependency :=
  (catalog.held.map (·.2)).filter (·.callee? = some id)

/-- The dependencies that lead out of the type of the member that holds them, as dependencies between
the two types. -/
def crossings (catalog : Catalog) : List TypeDependency :=
  catalog.held.filterMap fun (holder, dependency) =>
    match catalog.targetType? dependency with
    | some target =>
      if target = holder.declaringType then none
      else some { kind := dependency.kind, origin := holder.declaringType, target, via := dependency }
    | none => none

structure Unturned (catalog : Catalog) : Prop where
  member : ∀ {id member}, catalog.member? id = some member → member.backwards = #[]
  type : ∀ {id entry}, catalog.type? id = some entry →
    entry.dependencies = #[] ∧ entry.backwards = #[]

def typeTotal (catalog : Catalog) (measure : TypeEntry → Nat) : Nat :=
  (catalog.types.toList.map measure).sum

/-! ## One dependency -/

section LinkHeld

variable {catalog : Catalog}

theorem member?_recordCall (dependency : Dependency) (id : MemberId) :
    (catalog.recordCall dependency).member? id = (catalog.member? id).map fun member =>
      { member with backwards :=
          member.backwards ++ ([dependency].filter (·.callee? = some id)).toArray } := by
  cases dependency with
  | onType use origin target => simp [recordCall, Dependency.callee?]
  | call origin target =>
      simp only [recordCall, addBackwards, member?_updateMember]
      by_cases called : target = id
      · simp [called, Dependency.callee?]
      · simp [called, Dependency.callee?]

private theorem typeDependency?_recordCall (recorded : Dependency) (holder : TypeId)
    (dependency : Dependency) :
    (catalog.recordCall recorded).typeDependency? holder dependency =
      catalog.typeDependency? holder dependency := by
  have same : (catalog.recordCall recorded).targetType? dependency =
      catalog.targetType? dependency := by
    cases dependency with
    | onType use origin target => rfl
    | call origin target => simp [targetType?, member?_recordCall, Function.comp_def]
  simp only [typeDependency?, same]

private theorem type?_recordCall (dependency : Dependency) (id : TypeId) :
    (catalog.recordCall dependency).type? id = catalog.type? id := by
  cases dependency <;> rfl

private theorem type?_addTypeDependency (dependency : TypeDependency) (id : TypeId) :
    (catalog.addTypeDependency dependency).type? id = (catalog.type? id).map fun entry =>
      { entry with
        dependencies := entry.dependencies ++ ([dependency].filter (·.origin = id)).toArray
        backwards := entry.backwards ++ ([dependency].filter (·.target = id)).toArray } := by
  simp only [addTypeDependency, type?_updateType]
  by_cases origin : dependency.origin = id <;> by_cases target : dependency.target = id <;>
    simp [origin, target, Function.comp_def]

end LinkHeld

/-! ## Runs -/

def between (catalog : Catalog) (held : List (TypeId × Dependency)) : List TypeDependency :=
  held.filterMap fun (holder, dependency) => catalog.typeDependency? holder dependency

/-- The second catalog is the first with the held dependencies recorded backwards and between
types, and nothing else. -/
structure Mirrors (old : Catalog) (held : List (TypeId × Dependency)) (new : Catalog) : Prop where
  member? : ∀ id, new.member? id = (old.member? id).map fun member =>
    { member with backwards :=
        member.backwards ++ ((held.map (·.2)).filter (·.callee? = some id)).toArray }
  type? : ∀ id, new.type? id = (old.type? id).map fun entry =>
    { entry with
      dependencies := entry.dependencies ++ ((old.between held).filter (·.origin = id)).toArray
      backwards := entry.backwards ++ ((old.between held).filter (·.target = id)).toArray }
  typeIndex : new.typeIndex = old.typeIndex
  memberIndex : new.memberIndex = old.memberIndex

namespace Mirrors

variable {first second third : Catalog} {held others : List (TypeId × Dependency)}

theorem nothing (catalog : Catalog) : catalog.Mirrors [] catalog := by
  constructor <;> simp [Catalog.between]

-- Where a dependency leads does not depend on what was recorded before it.
theorem between (mirrors : first.Mirrors held second) (others : List (TypeId × Dependency)) :
    second.between others = first.between others := by
  have same : ∀ dependency, second.targetType? dependency = first.targetType? dependency := by
    intro dependency
    cases dependency with
    | onType use origin target => rfl
    | call origin target => simp [targetType?, mirrors.member?, Function.comp_def]
  simp only [Catalog.between, typeDependency?, same]

theorem append (before : first.Mirrors held second) (after : second.Mirrors others third) :
    first.Mirrors (held ++ others) third where
  member? id := by
    rw [after.member?, before.member?, Option.map_map]
    simp [Function.comp_def, ← List.append_toArray]
  type? id := by
    have joined : first.between (held ++ others) = first.between held ++ first.between others :=
      List.filterMap_append
    rw [after.type?, before.type?, Option.map_map, joined, before.between]
    simp [Function.comp_def, ← List.append_toArray]
  typeIndex := after.typeIndex.trans before.typeIndex
  memberIndex := after.memberIndex.trans before.memberIndex

theorem member?_before (mirrors : first.Mirrors held second) {id : MemberId} {later : Member}
    (found : second.member? id = some later) :
    ∃ member backwards, first.member? id = some member ∧ later = { member with backwards } := by
  rw [mirrors.member?] at found
  obtain ⟨member, there, rfl⟩ := Option.map_eq_some_iff.mp found
  exact ⟨member, _, there, rfl⟩

theorem type?_before (mirrors : first.Mirrors held second) {id : TypeId} {later : TypeEntry}
    (found : second.type? id = some later) :
    ∃ entry dependencies backwards, first.type? id = some entry ∧
      later = { entry with dependencies, backwards } := by
  rw [mirrors.type?] at found
  obtain ⟨entry, there, rfl⟩ := Option.map_eq_some_iff.mp found
  exact ⟨entry, _, _, there, rfl⟩

end Mirrors

theorem Mirrors.extends {old new : Catalog} {held : List (TypeId × Dependency)}
    (mirrors : old.Mirrors held new) : old.Extends new where
  type? {id entry} found := by
    refine ⟨_, by rw [mirrors.type?, found]; rfl, ?_⟩
    constructor <;> simp
  member? {id member} found := by
    refine ⟨_, by rw [mirrors.member?, found]; rfl, ?_⟩
    constructor <;> simp
  typeNamed? {name id} named := by
    rw [typeNamed?, mirrors.typeIndex]
    exact named
  memberNamed? {name id} named := by
    rw [memberNamed?, mirrors.memberIndex]
    exact named

variable {catalog : Catalog}

private theorem linkHeld_mirrors (count : Nat) (held : TypeId × Dependency) :
    catalog.Mirrors [held] (linkHeld (count, catalog) held).2 ∧
      (linkHeld (count, catalog) held).1 = count + (catalog.between [held]).length := by
  obtain ⟨holder, dependency⟩ := held
  simp only [linkHeld, typeDependency?_recordCall]
  cases leaves : catalog.typeDependency? holder dependency with
  | none =>
      have none : catalog.between [(holder, dependency)] = [] := by simp [between, leaves]
      refine ⟨⟨member?_recordCall dependency, ?_, ?_, ?_⟩, by simp [none]⟩
      · intro id
        simp [none, type?_recordCall]
      · cases dependency <;> rfl
      · cases dependency <;> rfl
  | some crossing =>
      have one : catalog.between [(holder, dependency)] = [crossing] := by simp [between, leaves]
      refine ⟨⟨member?_recordCall dependency, ?_, ?_, ?_⟩, by simp [one]⟩
      · intro id
        rw [one, type?_addTypeDependency, type?_recordCall]
      · cases dependency <;> rfl
      · cases dependency <;> rfl

private theorem foldl_linkHeld_mirrors (held : List (TypeId × Dependency)) (count : Nat) :
    catalog.Mirrors held (held.foldl linkHeld (count, catalog)).2 ∧
      (held.foldl linkHeld (count, catalog)).1 = count + (catalog.between held).length := by
  induction held generalizing catalog count with
  | nil => exact ⟨.nothing catalog, rfl⟩
  | cons one rest ih =>
      obtain ⟨first, counted⟩ := @linkHeld_mirrors catalog count one
      obtain ⟨others, countedOthers⟩ :=
        @ih (linkHeld (count, catalog) one).2 (linkHeld (count, catalog) one).1
      refine ⟨first.append others, ?_⟩
      have split : catalog.between (one :: rest) = catalog.between [one] ++ catalog.between rest :=
        List.filterMap_append (l := [one])
      rw [List.foldl_cons, countedOthers, counted, first.between, split, List.length_append,
        Nat.add_assoc]

theorem heldDependencies_eq :
    catalog.heldDependencies = catalog.held.map fun one => (one.1.declaringType, one.2) := by
  simp [heldDependencies, held, List.map_flatMap, Function.comp_def]

theorem between_heldDependencies : catalog.between catalog.heldDependencies = catalog.crossings := by
  rw [heldDependencies_eq, between, crossings, List.filterMap_map]
  refine List.filterMap_congr fun one _ => ?_
  dsimp only [Function.comp_apply, typeDependency?]
  cases catalog.targetType? one.2 with
  | none => rfl
  | some target => exact if_congr eq_comm rfl rfl

theorem crossings_known (formed : catalog.WellFormed) {crossing : TypeDependency}
    (there : crossing ∈ catalog.crossings) :
    catalog.hasType crossing.origin ∧ catalog.hasType crossing.target := by
  rw [← between_heldDependencies] at there
  obtain ⟨held, listed, leaves⟩ := List.mem_filterMap.mp there
  obtain ⟨holderKnown, known⟩ := heldDependencies_held formed held listed
  obtain ⟨origin, target, _⟩ := typeDependency?_known formed holderKnown known leaves
  exact ⟨origin, target⟩

theorem crossings_leave {crossing : TypeDependency} (there : crossing ∈ catalog.crossings) :
    crossing.origin ≠ crossing.target := by
  obtain ⟨⟨holder, dependency⟩, _, leaves⟩ := List.mem_filterMap.mp there
  dsimp only at leaves
  split at leaves
  · split at leaves
    · cases leaves
    · next differs =>
        cases leaves
        exact Ne.symm differs
  · cases leaves

theorem crossings_held {crossing : TypeDependency} (there : crossing ∈ catalog.crossings) :
    ∃ holder ∈ catalog.members.toList, crossing.via ∈ holder.dependencies ∧
      crossing.origin = holder.declaringType ∧ crossing.kind = crossing.via.kind := by
  obtain ⟨⟨holder, dependency⟩, held, leaves⟩ := List.mem_filterMap.mp there
  obtain ⟨member, listed, pair⟩ := List.mem_flatMap.mp held
  obtain ⟨other, recorded, same⟩ := List.mem_map.mp pair
  cases same
  dsimp only at leaves
  split at leaves
  · split at leaves
    · cases leaves
    · cases leaves
      exact ⟨holder, listed, Array.mem_toList_iff.mp recorded, rfl, rfl⟩
  · cases leaves

/-- If each type has as much as there are dependencies placed at it, all types together have as much
as there are dependencies. -/
theorem typeTotal_eq_length {measure : TypeEntry → Nat} (place : TypeDependency → TypeId)
    {recorded : List TypeDependency}
    (measured : ∀ {id entry}, catalog.type? id = some entry →
      measure entry = (recorded.filter (place · = id)).length)
    (known : ∀ crossing ∈ recorded, catalog.hasType (place crossing)) :
    catalog.typeTotal measure = recorded.length := by
  have counts : catalog.types.toList.map measure =
      (List.range catalog.types.size).map ((recorded.map (place · |>.index)).count ·) := by
    refine List.ext_getElem (by simp) fun index inRange _ => ?_
    rw [List.length_map, Array.length_toList] at inRange
    have here := @measured ⟨index⟩ _ (Array.getElem?_eq_getElem inRange)
    simp only [List.getElem_map, List.getElem_range, Array.getElem_toList, here,
      ← List.countP_eq_length_filter, List.count_eq_countP, List.countP_map]
    refine List.countP_congr fun crossing _ => ?_
    cases placed : place crossing with
    | mk position => simp [placed]
  calc catalog.typeTotal measure
      = ∑ index ∈ Finset.range catalog.types.size,
          Multiset.count index (recorded.map (place · |>.index)) := by
        rw [typeTotal, counts, Finset.sum, Finset.range_val, Multiset.range, Multiset.map_coe,
          Multiset.sum_coe]
        simp only [Multiset.coe_count]
    _ = Multiset.card (recorded.map (place · |>.index) : Multiset Nat) := by
        refine Multiset.sum_count_eq_card fun index there => ?_
        obtain ⟨crossing, listed, rfl⟩ := List.mem_map.mp (Multiset.mem_coe.mp there)
        exact Finset.mem_range.mpr (hasType_iff_lt.mp (known crossing listed))
    _ = recorded.length := by simp

/-! ## The whole pass -/

theorem linkBackwards_mirrors : catalog.Mirrors catalog.heldDependencies catalog.linkBackwards.2 :=
  (foldl_linkHeld_mirrors catalog.heldDependencies 0).1

private theorem linkBackwards_fst : catalog.linkBackwards.1 = catalog.crossings.length := by
  have counted := (@foldl_linkHeld_mirrors catalog catalog.heldDependencies 0).2
  rwa [between_heldDependencies, Nat.zero_add] at counted

theorem Unturned.member?_linkBackwards (unturned : catalog.Unturned) (id : MemberId) :
    catalog.linkBackwards.2.member? id = (catalog.member? id).map fun member =>
      { member with backwards := (catalog.callsOf id).toArray } := by
  have calls : catalog.heldDependencies.map (·.2) = catalog.held.map (·.2) := by
    rw [heldDependencies_eq, List.map_map]
    rfl
  rw [linkBackwards_mirrors.member?, calls]
  cases found : catalog.member? id with
  | none => rfl
  | some member => simp [unturned.member found, callsOf]

theorem Unturned.type?_linkBackwards (unturned : catalog.Unturned) (id : TypeId) :
    catalog.linkBackwards.2.type? id = (catalog.type? id).map fun entry =>
      { entry with
        dependencies := (catalog.crossings.filter (·.origin = id)).toArray
        backwards := (catalog.crossings.filter (·.target = id)).toArray } := by
  rw [linkBackwards_mirrors.type?, between_heldDependencies]
  cases found : catalog.type? id with
  | none => rfl
  | some entry => simp [(unturned.type found).1, (unturned.type found).2]

private theorem Unturned.dependencies_total (unturned : catalog.Unturned)
    (formed : catalog.WellFormed) :
    catalog.linkBackwards.2.typeTotal (·.dependencies.size) = catalog.linkBackwards.1 := by
  rw [linkBackwards_fst]
  refine typeTotal_eq_length (·.origin) (fun found => ?_) fun crossing there => ?_
  · rw [unturned.type?_linkBackwards] at found
    obtain ⟨entry, _, rfl⟩ := Option.map_eq_some_iff.mp found
    simp
  · exact updated_linkBackwards.covers.hasType (crossings_known formed there).1

private theorem Unturned.backwards_total (unturned : catalog.Unturned)
    (formed : catalog.WellFormed) :
    catalog.linkBackwards.2.typeTotal (·.backwards.size) = catalog.linkBackwards.1 := by
  rw [linkBackwards_fst]
  refine typeTotal_eq_length (·.target) (fun found => ?_) fun crossing there => ?_
  · rw [unturned.type?_linkBackwards] at found
    obtain ⟨entry, _, rfl⟩ := Option.map_eq_some_iff.mp found
    simp
  · exact updated_linkBackwards.covers.hasType (crossings_known formed there).2

/-! ## Catalogs that are not turned around -/

namespace Unturned

variable {old new : Catalog}

theorem addStubType (unturned : catalog.Unturned) (reference : TypeReference) :
    (catalog.addStubType reference).2.Unturned := by
  refine ⟨unturned.member, fun found => ?_⟩
  rcases (type?_addType_iff ..).mp found with ⟨_, rfl⟩ | before
  · exact ⟨rfl, rfl⟩
  · exact unturned.type before

theorem addMember (unturned : catalog.Unturned) {key : String} {make : MemberId → Member}
    (bare : ∀ id, (make id).backwards = #[]) : (catalog.addMember key make).2.Unturned := by
  cases fresh : catalog.memberNamed? key with
  | some id =>
      rw [addMember_of_known make fresh]
      exact unturned
  | none =>
      constructor
      · intro id member found
        rcases (member?_addMember_iff make fresh).mp found with ⟨_, rfl⟩ | before
        · exact bare _
        · exact unturned.member before
      · intro on entry found
        obtain ⟨before, there, rfl⟩ := type?_addMember_before make fresh found
        exact ⟨(unturned.type there).1, (unturned.type there).2⟩

theorem updateMember (unturned : catalog.Unturned) {change : Member → Member}
    (kept : ∀ member, (change member).backwards = member.backwards) (id : MemberId) :
    (catalog.updateMember id change).Unturned := by
  refine ⟨fun {other later} found => ?_, unturned.type⟩
  rw [member?_updateMember] at found
  split at found
  · obtain ⟨member, there, rfl⟩ := Option.map_eq_some_iff.mp found
    rw [kept]
    exact unturned.member there
  · exact unturned.member found

theorem addDependencies (unturned : catalog.Unturned) (id : MemberId)
    (dependencies : List Dependency) : (catalog.addDependencies id dependencies).Unturned := by
  refine unturned.updateMember ?_ id
  exact fun _ => rfl

theorem growth {policy : CallPolicy} (unturned : old.Unturned) (growth : Growth policy old new) :
    new.Unturned := by
  cases growth with
  | stubType fresh => exact unturned.addStubType _
  | stubMethod wanted stub fresh returnKnown parametersKnown =>
      exact unturned.addMember fun _ => rfl
  | dependencies offered => exact unturned.addDependencies _ _
  | link propertyFound fieldFound sameType =>
      refine linkBacking_induction (fun id change relinked before => ?_) unturned _ _
      exact before.updateMember (fun member => (relinked member).backwards) id

theorem grown {policy : CallPolicy} (unturned : old.Unturned) (grows : Grows policy old new) :
    new.Unturned := by
  induction grows with
  | refl => exact unturned
  | tail _ step before => exact before.growth step

end Unturned

end Catalog

namespace Analysis

open Catalog

private theorem typesLoaded_unturned (metadata : Metadata) :
    (typesLoaded metadata).2.catalog.Unturned := by
  have same : SameEntries ({} : Analysis).catalog (typesLoaded metadata).2.catalog :=
    loadTypes_sameEntries _
  constructor
  · intro id member found
    simp [member?, same.members, Catalog.empty] at found
  · intro id entry found
    rw [(typesLoaded_inOrder metadata).type?] at found
    obtain ⟨given, _, rfl⟩ := Option.map_eq_some_iff.mp found
    exact ⟨rfl, rfl⟩

theorem extracted_unturned (options : Options) (metadata : Metadata) :
    ((allocate {} metadata).2.extractTypes options (allocate {} metadata).1).2.catalog.Unturned := by
  have kept : KeptByLoading Unturned := by
    constructor
    · exact fun _ unturned => unturned.addStubType _
    · exact fun bare unturned => unturned.addMember bare
    · exact fun unturned => unturned.addDependencies _ _
  have allocated : (allocate {} metadata).2.catalog.Unturned :=
    kept.foldl_loadMembers (typesLoaded_unturned metadata) _
  exact allocated.grown (extracted_grows metadata options)

/-- The catalog of an analysis is the one after extraction, turned around as far as was wanted. -/
theorem build_mirrors {options : Options} {metadata : Metadata} {architecture : Architecture}
    (built : (Architecture.build options metadata).1 = .ok architecture) :
    let extracted := (allocate {} metadata).2.extractTypes options (allocate {} metadata).1
    extracted.1 = .ok architecture.statistics ∧
      ∃ held, extracted.2.catalog.Mirrors held architecture.catalog := by
  intro extracted
  rw [build_eq] at built
  cases succeeded : extracted.1 with
  | error error => rw [succeeded] at built; cases built
  | ok statistics =>
      rw [succeeded] at built
      cases built
      refine ⟨rfl, ?_⟩
      dsimp only
      split
      · exact ⟨_, linkBackwards_mirrors⟩
      · exact ⟨_, .nothing _⟩

/-! ## Options -/

section Options

variable {first second : Options} (same : first.callPolicy = second.callPolicy)
include same

theorem extractMethod_congr (analysis : Analysis) (on : TypeId) (method : MethodDefinition) :
    analysis.extractMethod first on method = analysis.extractMethod second on method := by
  simp only [extractMethod, extractKnownMethod, methodCalls, same]

theorem extractMethods_congr (analysis : Analysis) (on : TypeId) (methods : List MethodDefinition) :
    analysis.extractMethods first on methods = analysis.extractMethods second on methods := by
  induction methods generalizing analysis with
  | nil => rfl
  | cons method rest ih => simp only [extractMethods, extractMethod_congr same, ih]

theorem extractTypes_congr (analysis : Analysis) (loaded : List LoadedType) :
    analysis.extractTypes first loaded = analysis.extractTypes second loaded := by
  induction loaded generalizing analysis with
  | nil => rfl
  | cons one rest ih => simp only [extractTypes, extractType, extractMethods_congr same, ih]

end Options

end Analysis

open Catalog

/-- Turning dependencies around records every call at the method that is called and every crossing at
both of its types, in the order in which they are held, and changes nothing else. So an analysis that
does it differs from one that does not in these lists only. -/
theorem turned_around_mirrors :
    (∀ catalog : Catalog, catalog.WellFormed → catalog.Unturned →
      let count := catalog.linkBackwards.1
      let linked := catalog.linkBackwards.2
      (∀ id, linked.member? id = (catalog.member? id).map fun member =>
        { member with backwards := (catalog.callsOf id).toArray }) ∧
      (∀ id, linked.type? id = (catalog.type? id).map fun entry =>
        { entry with
          dependencies := (catalog.crossings.filter (·.origin = id)).toArray
          backwards := (catalog.crossings.filter (·.target = id)).toArray }) ∧
      (∀ crossing ∈ catalog.crossings, crossing.origin ≠ crossing.target) ∧
      linked.typeTotal (·.dependencies.size) = count ∧
      linked.typeTotal (·.backwards.size) = count ∧
      linked.typeIndex = catalog.typeIndex ∧ linked.memberIndex = catalog.memberIndex) ∧
    ∀ (options : Options) (metadata : Metadata),
      let plain := (Architecture.build { options with linkBackwards := false } metadata).1
      let linked := (Architecture.build { options with linkBackwards := true } metadata).1
      (linked = plain.map fun architecture =>
        { architecture with catalog := architecture.catalog.linkBackwards.2 }) ∧
      ∀ architecture, plain = .ok architecture →
        architecture.catalog.WellFormed ∧ architecture.catalog.Unturned := by
  refine ⟨fun catalog formed unturned => ?_, fun options metadata => ⟨?_, ?_⟩⟩
  · refine ⟨unturned.member?_linkBackwards, unturned.type?_linkBackwards,
      fun _ there => crossings_leave there, unturned.dependencies_total formed,
      unturned.backwards_total formed, linkBackwards_mirrors.typeIndex,
      linkBackwards_mirrors.memberIndex⟩
  · have same := @Analysis.extractTypes_congr { options with linkBackwards := false }
      { options with linkBackwards := true } rfl (Analysis.allocate {} metadata).2
      (Analysis.allocate {} metadata).1
    rw [Analysis.build_eq, Analysis.build_eq, ← same]
    cases (Analysis.extractTypes (Analysis.allocate {} metadata).2 _ _).1 <;> rfl
  · intro architecture built
    rw [Analysis.build_eq] at built
    cases extracted : (Analysis.extractTypes (Analysis.allocate {} metadata).2
        { options with linkBackwards := false } (Analysis.allocate {} metadata).1).1 with
    | error error => rw [extracted] at built; cases built
    | ok statistics =>
        rw [extracted] at built
        cases built
        exact ⟨(Analysis.extractTypes_changes metadata _).wellFormed wellFormed_empty,
          Analysis.extracted_unturned _ metadata⟩

theorem turned_around_mirrors_order :
    ∃ architecture member entry,
      (Architecture.build { linkBackwards := false } orderMetadata).1 = .ok architecture ∧
      architecture.catalog.WellFormed ∧ architecture.catalog.Unturned ∧
      architecture.catalog.linkBackwards.2.member? ⟨1⟩ = some member ∧
      member.backwards = #[.call ⟨2⟩ ⟨1⟩] ∧
      architecture.catalog.linkBackwards.2.type? ⟨3⟩ = some entry ∧
      entry.backwards = #[⟨.call, ⟨0⟩, ⟨3⟩, .call ⟨2⟩ ⟨4⟩⟩] ∧
      architecture.catalog.linkBackwards.2.typeTotal (·.dependencies.size) = 8 := by
  obtain ⟨architecture, built, evaluated⟩ :=
    @Analysis.build_passes { linkBackwards := false } orderMetadata
      (fun architecture =>
        (architecture.catalog.member? ⟨1⟩).isSome && (architecture.catalog.type? ⟨3⟩).isSome &&
          architecture.catalog.callsOf ⟨1⟩ = [.call ⟨2⟩ ⟨1⟩] &&
          architecture.catalog.crossings.filter (·.target = ⟨3⟩) =
            [⟨.call, ⟨0⟩, ⟨3⟩, .call ⟨2⟩ ⟨4⟩⟩] &&
          architecture.catalog.linkBackwards.1 = 8)
      (by decide +kernel)
  simp only [Bool.and_eq_true, decide_eq_true_eq, Option.isSome_iff_exists] at evaluated
  obtain ⟨⟨⟨⟨⟨member, found⟩, entry, typeFound⟩, calls⟩, crossings⟩, count⟩ := evaluated
  obtain ⟨formed, unturned⟩ := (turned_around_mirrors.2 {} orderMetadata).2 architecture built
  obtain ⟨members, types, _, total, _⟩ := turned_around_mirrors.1 _ formed unturned
  refine ⟨architecture, _, _, built, formed, unturned,
    (members ⟨1⟩).trans (by rw [found]; rfl), ?_,
    (types ⟨3⟩).trans (by rw [typeFound]; rfl), ?_, total.trans count⟩
  · dsimp only
    rw [calls]
  · dsimp only
    rw [crossings]

end MemberGraph
