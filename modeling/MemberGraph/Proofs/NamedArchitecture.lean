import MemberGraph.Proofs.DeclaredOutline

/-!
What an analysis of metadata gives, by full names: for each defined member the dependencies, the
calls of it and the links, told from the outlines that metadata has for its types.
-/

set_option autoImplicit false

namespace MemberGraph

open Analysis

namespace Metadata

variable (metadata : Metadata) (policy : CallPolicy)

def run : Yield := runYield (fun _ => none) (metadata.visits policy)

def storage : Storage := runStorage (fun _ => none) (metadata.visits policy)

def edgesOf (name : String) : List NamedEdge :=
  (metadata.memberDefinitions.find? (·.2.fullName = name)).elim [] (·.2.initialEdges) ++
    (metadata.run policy).log.edgesOf name

def propertyOf? (name : String) : Option PropertyOutline :=
  (metadata.memberDefinitions.find? (·.2.fullName = name)).bind fun given =>
    given.2.propertyOutline? (metadata.declaresMethod given.1)

def callsOf (name : String) : List NamedEdge :=
  (metadata.firstMembers.flatMap (metadata.edgesOf policy ·.2.fullName)).filter fun edge =>
    edge.kind = .call ∧ edge.target = name

end Metadata

/-! ## Reading a catalog -/

structure NamedMember where
  dependencies : List NamedEdge
  backwards : List NamedEdge
  getter : Option String
  setter : Option String
  backingField : Option String
  backedProperty : Option String
deriving DecidableEq, Repr

/-- What the member of a name holds in the end, if it stores the property given. -/
def Metadata.namedMember (metadata : Metadata) (options : Options) (name : String)
    (backedProperty : Option String) : NamedMember where
  dependencies := metadata.edgesOf options.callPolicy name
  backwards := if options.linkBackwards then metadata.callsOf options.callPolicy name else []
  getter := (metadata.propertyOf? name).bind (·.getter)
  setter := (metadata.propertyOf? name).bind (·.setter)
  backingField := metadata.storage options.callPolicy name
  backedProperty

theorem Member.property?_eq_some_iff {member : Member} {links : PropertyLinks} :
    member.property? = some links ↔ member.role = .property links := by
  unfold Member.property?
  cases member.role <;> simp

namespace Catalog

/-- The member that is linked has the name given; it does not lead out of the catalog. -/
def Refers (catalog : Catalog) (linked : Option MemberId) (name : Option String) : Prop :=
  linked.map catalog.memberName? = name.map some

structure ReadsAs (catalog : Catalog) (member : Member) (named : NamedMember) : Prop where
  dependencies : catalog.Spells member.dependencies.toList named.dependencies
  backwards : catalog.Spells member.backwards.toList named.backwards
  getter : catalog.Refers (member.property?.bind (·.getter)) named.getter
  setter : catalog.Refers (member.property?.bind (·.setter)) named.setter
  backingField : catalog.Refers (member.property?.bind (·.backingField)) named.backingField
  backedProperty : catalog.Refers member.backedProperty? named.backedProperty

def DefinesMember (catalog : Catalog) (name : String) : Prop :=
  ∃ id member, catalog.member? id = some member ∧ member.isStub = false ∧ member.fullName = name

section Reading

variable {catalog : Catalog}

private theorem refers_bind {linked : Option MemberId}
    (known : ∀ id ∈ linked, catalog.hasMember id) :
    catalog.Refers linked (linked.bind catalog.memberName?) := by
  cases linked with
  | none => rfl
  | some id =>
      obtain ⟨member, found⟩ := hasMember_iff.mp (known id rfl)
      simp [Refers, memberName?, found]

theorem WellFormed.refers_links (formed : catalog.WellFormed) {id : MemberId} {member : Member}
    (found : catalog.member? id = some member) (link : PropertyLinks → Option MemberId)
    (one : link = PropertyLinks.getter ∨ link = PropertyLinks.setter ∨
      link = PropertyLinks.backingField) :
    catalog.Refers (member.property?.bind link)
      ((member.property?.bind link).bind catalog.memberName?) := by
  refine refers_bind fun linked isLinked => ?_
  obtain ⟨links, isProperty, stored⟩ := Option.bind_eq_some_iff.mp isLinked
  have role := (formed.knowsMember found).role
  rw [Member.property?_eq_some_iff.mp isProperty] at role
  rcases one with rfl | rfl | rfl
  · exact role.1 linked stored
  · exact role.2.1 linked stored
  · exact role.2.2 linked stored

private theorem WellFormed.spells_calls (formed : catalog.WellFormed) {id : MemberId}
    {member : Member} (found : catalog.member? id = some member) {dependencies : List Dependency}
    (known : ∀ dependency ∈ dependencies, catalog.Knows dependency) :
    catalog.Spells (dependencies.filter (·.callee? = some id))
      ((dependencies.filterMap catalog.edge?).filter fun edge =>
        edge.kind = .call ∧ edge.target = member.fullName) := by
  induction dependencies with
  | nil => exact Spells.nil
  | cons dependency rest ih =>
      have further := ih fun other there => known other (List.mem_cons_of_mem _ there)
      obtain ⟨edge, spelled⟩ := Option.isSome_iff_exists.mp (known dependency (by simp)).edge?_isSome
      have same : dependency.callee? = some id ↔
          edge.kind = .call ∧ edge.target = member.fullName := by
        have named := (edge?_eq_some_iff.mp spelled).2
        cases dependency with
        | onType use origin target =>
            obtain ⟨entry, _, used⟩ := Option.map_eq_some_iff.mp named
            cases edge
            cases used
            simp [Dependency.callee?]
        | call origin target =>
            obtain ⟨called, there, used⟩ := Option.map_eq_some_iff.mp named
            cases edge
            cases used
            simp only [Dependency.callee?, Option.some.injEq, true_and]
            refine ⟨?_, formed.member?_inj there found⟩
            rintro rfl
            rw [there] at found
            cases found
            rfl
      rw [List.filterMap_cons_some spelled, List.filter_cons, List.filter_cons]
      by_cases called : dependency.callee? = some id
      · rw [if_pos (decide_eq_true called), if_pos (decide_eq_true (same.mp called))]
        exact congrArg₂ List.cons spelled further
      · rw [if_neg (mt of_decide_eq_true called),
          if_neg (mt of_decide_eq_true (mt same.mpr called))]
        exact further

end Reading

section Mirrored

variable {old new : Catalog} {held : List (TypeId × Dependency)}

theorem Mirrors.linkState (mirrors : old.Mirrors held new) (id : MemberId) :
    new.linkState id = old.linkState id := by
  unfold Catalog.linkState
  rw [mirrors.member?]
  cases old.member? id <;> rfl

theorem Mirrors.storage (mirrors : old.Mirrors held new) (formed : old.WellFormed)
    (formedNew : new.WellFormed) (paired : old.Paired) : new.storage = old.storage :=
  storage_kept mirrors.extends formed formedNew paired fun id =>
    backingField?_congr (mirrors.linkState id)

private theorem held_map_snd (catalog : Catalog) :
    catalog.held.map (·.2) = catalog.members.toList.flatMap (·.dependencies.toList) := by
  simp [Catalog.held, List.map_flatMap, Function.comp_def]

theorem Mirrors.heldDependencies (mirrors : old.Mirrors held new) :
    new.heldDependencies = old.heldDependencies := by
  have same : new.members.toList.map (fun member => (member.declaringType, member.dependencies)) =
      old.members.toList.map fun member => (member.declaringType, member.dependencies) := by
    apply List.ext_getElem?
    intro index
    have there := mirrors.member? ⟨index⟩
    simp only [Catalog.member?] at there
    simp only [List.getElem?_map, Array.getElem?_toList, there]
    cases old.members[index]? <;> rfl
  have all : ∀ catalog : Catalog, catalog.heldDependencies =
      (catalog.members.toList.map fun member => (member.declaringType, member.dependencies)).flatMap
        fun one => one.2.toList.map (one.1, ·) := by
    intro catalog
    rw [List.flatMap_map]
    rfl
  rw [all, all, same]

theorem Mirrors.callsOf (mirrors : old.Mirrors held new) (id : MemberId) :
    new.callsOf id = old.callsOf id := by
  have calls : ∀ catalog : Catalog,
      catalog.held.map (·.2) = catalog.heldDependencies.map (·.2) := by
    intro catalog
    rw [heldDependencies_eq, List.map_map]
    rfl
  rw [Catalog.callsOf, Catalog.callsOf, calls, calls, mirrors.heldDependencies]

theorem Mirrors.crossings (mirrors : old.Mirrors held new) : new.crossings = old.crossings := by
  rw [← between_heldDependencies, ← between_heldDependencies, mirrors.between,
    mirrors.heldDependencies]

end Mirrored

end Catalog

/-! ## Builds -/

namespace Analysis

open Catalog

section Built

variable {options : Options} {metadata : Metadata} {architecture : Architecture}
  (built : (Architecture.build options metadata).1 = .ok architecture)
include built

theorem built_catalog :
    let extracted := (allocate {} metadata).2.extractTypes options (allocate {} metadata).1
    architecture.catalog =
      if options.linkBackwards then extracted.2.catalog.linkBackwards.2
      else extracted.2.catalog := by
  intro extracted
  rw [build_eq] at built
  cases succeeded : extracted.1 with
  | error error => rw [succeeded] at built; cases built
  | ok statistics =>
      rw [succeeded] at built
      cases built
      rfl

theorem built_wellFormed : architecture.catalog.WellFormed := by
  have formed := Grows.wellFormed (extracted_grows metadata options) (allocated_wellFormed metadata)
  have turned : Changes .existingOnly _ _ := linkBackwards_changes formed
  rw [built_catalog built]
  split
  · exact turned.wellFormed formed
  · exact formed

theorem built_paired : architecture.catalog.Paired := by
  obtain ⟨followed, held, mirrors⟩ := built_follows built
  have relinked : Relinkings False _ _ := followed.yields.grows.relinkings
  have kept : Relinking False _ _ := .of_linkState mirrors.linkState
  exact kept.paired (relinked.paired (allocated_paired metadata))

theorem built_statistics :
    architecture.statistics = (metadata.run options.callPolicy).statistics := by
  rw [(built_follows built).1.statistics, outlines_allocated, allocated_storage]
  rfl

theorem built_storage : architecture.catalog.storage = metadata.storage options.callPolicy := by
  obtain ⟨followed, held, mirrors⟩ := built_follows built
  have relinked : Relinkings False _ _ := followed.yields.grows.relinkings
  rw [mirrors.storage (Grows.wellFormed followed.yields.grows (allocated_wellFormed metadata))
    (built_wellFormed built) (relinked.paired (allocated_paired metadata)), followed.storage,
    outlines_allocated, allocated_storage]
  rfl

theorem built_backwards {id : MemberId} {member : Member}
    (found : architecture.catalog.member? id = some member) :
    member.backwards.toList =
      if options.linkBackwards then architecture.catalog.callsOf id else [] := by
  have unturned := extracted_unturned options metadata
  have catalog := built_catalog built
  split
  · next wanted =>
      rw [catalog, if_pos wanted] at found ⊢
      rw [linkBackwards_mirrors.callsOf]
      rw [unturned.member?_linkBackwards] at found
      obtain ⟨before, _, rfl⟩ := Option.map_eq_some_iff.mp found
      rfl
  · next unwanted =>
      rw [catalog, if_neg unwanted] at found
      rw [unturned.member found]

theorem built_crossings {id : TypeId} {entry : TypeEntry}
    (found : architecture.catalog.type? id = some entry) :
    entry.dependencies.toList =
        (if options.linkBackwards then architecture.catalog.crossings.filter (·.origin = id)
          else []) ∧
      entry.backwards.toList =
        if options.linkBackwards then architecture.catalog.crossings.filter (·.target = id)
          else [] := by
  have unturned := extracted_unturned options metadata
  have catalog := built_catalog built
  split
  · next wanted =>
      rw [catalog, if_pos wanted] at found ⊢
      rw [linkBackwards_mirrors.crossings]
      rw [unturned.type?_linkBackwards] at found
      obtain ⟨before, _, rfl⟩ := Option.map_eq_some_iff.mp found
      exact ⟨rfl, rfl⟩
  · next unwanted =>
      rw [catalog, if_neg unwanted] at found
      obtain ⟨bare, bareBackwards⟩ := unturned.type found
      rw [bare, bareBackwards]
      exact ⟨rfl, rfl⟩

theorem built_dependencies {id : MemberId} {member : Member}
    (found : architecture.catalog.member? id = some member) (defined : member.isStub = false) :
    architecture.catalog.Spells member.dependencies.toList
      (metadata.edgesOf options.callPolicy member.fullName) := by
  obtain ⟨before, there, extended⟩ := built_loaded built found defined
  obtain ⟨given, first, _, _, initial, _⟩ := allocated_declared there
  have spelled := built_spelled built there
  dsimp only at spelled
  rw [initial, outlines_allocated, allocated_storage, recordedDependencies, found,
    Option.elim_some] at spelled
  rw [Metadata.edgesOf, extended.fullName, first]
  exact spelled

theorem built_propertyOutline {id : MemberId} {member : Member}
    (found : architecture.catalog.member? id = some member) (defined : member.isStub = false) :
    (metadata.propertyOf? member.fullName).bind (·.getter) =
        (architecture.catalog.propertyOutline member).getter ∧
      (metadata.propertyOf? member.fullName).bind (·.setter) =
        (architecture.catalog.propertyOutline member).setter := by
  obtain ⟨followed, held, mirrors⟩ := built_follows built
  obtain ⟨before, there, extended⟩ := built_loaded built found defined
  obtain ⟨given, first, _, _, _, links⟩ := allocated_declared there
  have kept := (followed.yields.grows.extends.trans mirrors.extends).propertyOutline
    (allocated_wellFormed metadata) there extended
  rw [Metadata.propertyOf?, extended.fullName, first, Option.bind_some, links, kept]
  cases isProperty : before.property? with
  | none => simp [Member.isProperty, isProperty, Catalog.propertyOutline]
  | some _ => simp [Member.isProperty, isProperty]

theorem built_backedProperty {id : MemberId} {member : Member}
    (found : architecture.catalog.member? id = some member) (property : String) :
    member.backedProperty?.bind architecture.catalog.memberName? = some property ↔
      metadata.storage options.callPolicy property = some member.fullName := by
  have formed := built_wellFormed built
  have paired := built_paired built
  rw [← built_storage built]
  constructor
  · intro named
    obtain ⟨owner, backs, ownerNamed⟩ := Option.bind_eq_some_iff.mp named
    obtain ⟨ownerMember, ownerFound, rfl⟩ := Option.map_eq_some_iff.mp ownerNamed
    have stored := (paired owner id).mpr (by simpa [Catalog.backedProperty?, found] using backs)
    rw [storage_eq formed ownerFound, stored]
    simp [memberName?, found]
  · intro stored
    obtain ⟨field, backing, fieldNamed⟩ := Option.bind_eq_some_iff.mp stored
    obtain ⟨owner, ownerNamed, storing⟩ := Option.bind_eq_some_iff.mp backing
    obtain ⟨ownerMember, ownerFound, rfl⟩ := formed.memberNamed?_iff.mp ownerNamed
    obtain ⟨fieldMember, fieldFound, same⟩ := Option.map_eq_some_iff.mp fieldNamed
    cases formed.member?_inj fieldFound found same
    have backs := (paired owner _).mp storing
    rw [Catalog.backedProperty?, found, Option.bind_some] at backs
    simp [backs, memberName?, ownerFound]

/-- The members that were loaded come first, in the order of their definitions. -/
theorem built_members_split : ∃ loaded stubs, architecture.catalog.members.toList = loaded ++ stubs ∧
    loaded.map (·.fullName) = metadata.firstMembers.map (·.2.fullName) ∧
    (∀ member ∈ loaded, member.isStub = false) ∧ ∀ member ∈ stubs, member.dependencies = #[] := by
  obtain ⟨followed, held, mirrors⟩ := built_follows built
  have extended := followed.yields.grows.extends.trans mirrors.extends
  have known : ∀ {index : Nat}, index < (allocate {} metadata).2.catalog.members.size →
      ∃ before later, (allocate {} metadata).2.catalog.member? ⟨index⟩ = some before ∧
        architecture.catalog.member? ⟨index⟩ = some later ∧ before.Extends later := by
    intro index inRange
    obtain ⟨before, there⟩ := hasMember_iff.mp (decide_eq_true inRange)
    obtain ⟨later, found, memberExtended⟩ := extended.member? there
    exact ⟨before, later, there, found, memberExtended⟩
  refine ⟨_, _, (List.take_append_drop (allocate {} metadata).2.catalog.members.size _).symm,
    ?_, ?_, ?_⟩
  · rw [Metadata.firstMembers, ← (allocated_membersInOrder metadata).names]
    apply List.ext_getElem?
    intro index
    rw [List.getElem?_map, List.getElem?_map, List.getElem?_take]
    split
    · next inRange =>
        obtain ⟨before, later, there, found, memberExtended⟩ := known inRange
        rw [Array.getElem?_toList, Array.getElem?_toList,
          show architecture.catalog.members[index]? = _ from found,
          show (allocate {} metadata).2.catalog.members[index]? = _ from there]
        simp [memberExtended.fullName]
    · next outOfRange => simp [Nat.not_lt.mp outOfRange]
  · intro member listed
    obtain ⟨index, there⟩ := List.getElem?_of_mem listed
    rw [List.getElem?_take] at there
    split at there
    · next inRange =>
        obtain ⟨before, later, atStart, found, memberExtended⟩ := known inRange
        rw [Array.getElem?_toList, show architecture.catalog.members[index]? = _ from found] at there
        cases there
        obtain ⟨given, _, _, isMatch⟩ := allocated_member metadata atStart
        rw [memberExtended.isStub, isMatch.isStub]
    · cases there
  · intro member listed
    obtain ⟨index, there⟩ := List.getElem?_of_mem listed
    rw [List.getElem?_drop, Array.getElem?_toList] at there
    have found : architecture.catalog.member?
        ⟨(allocate {} metadata).2.catalog.members.size + index⟩ = some member := there
    cases isStub : member.isStub with
    | true =>
        exact built_stubsBare built found ((built_member? built found).1.symm.trans isStub)
    | false =>
        obtain ⟨before, atStart, _⟩ := built_loaded built found isStub
        simp [Catalog.member?] at atStart

theorem built_callsOf {id : MemberId} {member : Member}
    (found : architecture.catalog.member? id = some member) :
    architecture.catalog.Spells (architecture.catalog.callsOf id)
      (metadata.callsOf options.callPolicy member.fullName) := by
  have formed := built_wellFormed built
  obtain ⟨loaded, stubs, split, names, defined, bare⟩ := built_members_split built
  have listed : ∀ member ∈ loaded ++ stubs, architecture.catalog.member? member.id = some member :=
    fun member there => formed.member?_of_mem (split ▸ there)
  have known : ∀ member ∈ loaded ++ stubs, ∀ dependency ∈ member.dependencies.toList,
      architecture.catalog.Knows dependency := fun member there dependency recorded =>
    (formed.knowsMember (listed member there)).dependencies dependency
      (Array.mem_toList_iff.mp recorded)
  have ofLoaded : loaded.flatMap (·.dependencies.toList.filterMap architecture.catalog.edge?) =
      metadata.firstMembers.flatMap (metadata.edgesOf options.callPolicy ·.2.fullName) := by
    calc loaded.flatMap (·.dependencies.toList.filterMap architecture.catalog.edge?)
      _ = loaded.flatMap (metadata.edgesOf options.callPolicy ·.fullName) := by
        refine List.flatMap_congr fun one there => ?_
        have inAll := List.mem_append_left stubs there
        exact (spells_filterMap (known one inAll)).unique
          (built_dependencies built (listed one inAll) (defined one there))
      _ = (loaded.map (·.fullName)).flatMap (metadata.edgesOf options.callPolicy) := by
        rw [List.flatMap_map]
      _ = _ := by rw [names, List.flatMap_map]
  have ofStubs : stubs.flatMap (·.dependencies.toList.filterMap architecture.catalog.edge?) = [] :=
    List.flatMap_eq_nil_iff.mpr fun one there => by simp [bare one there]
  rw [Catalog.callsOf, Metadata.callsOf, held_map_snd, split, ← ofLoaded,
    ← List.append_nil (loaded.flatMap _), ← ofStubs, ← List.flatMap_append,
    ← List.filterMap_flatMap]
  refine formed.spells_calls found fun dependency recorded => ?_
  obtain ⟨one, there, recorded⟩ := List.mem_flatMap.mp recorded
  exact known one there dependency recorded

theorem built_readsAs {id : MemberId} {member : Member}
    (found : architecture.catalog.member? id = some member) (defined : member.isStub = false) :
    ∃ backedProperty, architecture.catalog.ReadsAs member
        (metadata.namedMember options member.fullName backedProperty) ∧
      ∀ property, backedProperty = some property ↔
        metadata.storage options.callPolicy property = some member.fullName := by
  have formed := built_wellFormed built
  obtain ⟨getter, setter⟩ := built_propertyOutline built found defined
  refine ⟨member.backedProperty?.bind architecture.catalog.memberName?, ?_,
    built_backedProperty built found⟩
  constructor <;> dsimp only [Metadata.namedMember]
  · exact built_dependencies built found defined
  · rw [built_backwards built found]
    split
    · exact built_callsOf built found
    · exact Spells.nil
  · rw [getter]
    exact formed.refers_links found _ (.inl rfl)
  · rw [setter]
    exact formed.refers_links found _ (.inr (.inl rfl))
  · have stored : architecture.catalog.backingField? id = member.property?.bind (·.backingField) := by
      simp [backingField?, linksOf?, found]
    rw [← built_storage built, storage_eq formed found, stored]
    exact formed.refers_links found _ (.inr (.inr rfl))
  · refine refers_bind fun property backs => ?_
    have stored := (built_paired built property id).mpr
      (by simpa [Catalog.backedProperty?, found] using backs)
    obtain ⟨owner, _, there, _⟩ := backingField?_eq_some_iff.mp stored
    exact hasMember_of_member? there

theorem built_definesMember (name : String) : architecture.catalog.DefinesMember name ↔
    (metadata.memberDefinitions.find? (·.2.fullName = name)).isSome := by
  constructor
  · rintro ⟨id, member, found, defined, rfl⟩
    obtain ⟨before, there, extended⟩ := built_loaded built found defined
    obtain ⟨given, first, _⟩ := allocated_declared there
    rw [extended.fullName, first]
    rfl
  · intro isSome
    obtain ⟨given, first⟩ := Option.isSome_iff_exists.mp isSome
    obtain ⟨id, member, named, there, _, isMatch⟩ := (allocated_entered metadata).found first
    obtain ⟨same, sameThere, fullName⟩ := (allocated_wellFormed metadata).memberNamed?_iff.mp named
    rw [there] at sameThere
    cases sameThere
    obtain ⟨followed, held, mirrors⟩ := built_follows built
    obtain ⟨later, found, extended⟩ :=
      (followed.yields.grows.extends.trans mirrors.extends).member? there
    exact ⟨id, later, found, extended.isStub.trans isMatch.isStub, extended.fullName.trans fullName⟩

end Built

end Analysis

theorem build_isOk_iff_visits (options : Options) (metadata : Metadata) :
    (Architecture.build options metadata).1.isOk ↔
      ∀ one ∈ metadata.visits options.callPolicy,
        (one.1.declares one.2.fullName && one.2.conflicts) = false := by
  rw [build_isOk_iff, Metadata.failure?, List.findSome?_eq_none_iff]
  simp only [Option.map_eq_none_iff, List.find?_eq_none, Bool.not_eq_true, Metadata.visits,
    List.mem_flatMap, List.mem_map]
  constructor
  · rintro none _ ⟨definition, there, method, listed, rfl⟩
    exact none definition there method listed
  · intro none definition there method listed
    exact none _ ⟨definition, there, method, listed, rfl⟩

/-! ## Comparing architectures -/

/-- Two architectures define members of the same names, and what two members of one name hold is
related. -/
structure Architecture.MembersAgree (related : NamedMember → NamedMember → Prop)
    (one other : Architecture) : Prop where
  defined : ∀ name, one.catalog.DefinesMember name ↔ other.catalog.DefinesMember name
  related : ∀ {id otherId member otherMember}, one.catalog.member? id = some member →
    member.isStub = false → other.catalog.member? otherId = some otherMember →
    otherMember.isStub = false → member.fullName = otherMember.fullName →
    ∃ named otherNamed, one.catalog.ReadsAs member named ∧
      other.catalog.ReadsAs otherMember otherNamed ∧ related named otherNamed

structure NamedMember.LinkedAlike (one other : NamedMember) : Prop where
  getter : one.getter = other.getter
  setter : one.setter = other.setter
  backingField : one.backingField = other.backingField
  backedProperty : one.backedProperty = other.backedProperty

theorem membersAgree_of_metadata {options : Options} {first second : Metadata}
    {one other : Architecture} (built : (Architecture.build options first).1 = .ok one)
    (builtToo : (Architecture.build options second).1 = .ok other)
    (defined : ∀ name, (first.memberDefinitions.find? (·.2.fullName = name)).isSome =
      (second.memberDefinitions.find? (·.2.fullName = name)).isSome)
    (storage : first.storage options.callPolicy = second.storage options.callPolicy)
    {related : NamedMember → NamedMember → Prop}
    (relates : ∀ name backedProperty,
      related (first.namedMember options name backedProperty)
        (second.namedMember options name backedProperty)) :
    one.MembersAgree related other where
  defined name := by
    rw [built_definesMember built, built_definesMember builtToo, defined]
  related {id otherId member otherMember} found notStub otherFound otherNotStub fullName := by
    obtain ⟨backed, reads, stored⟩ := built_readsAs built found notStub
    obtain ⟨backedToo, readsToo, storedToo⟩ := built_readsAs builtToo otherFound otherNotStub
    have same : backed = backedToo := by
      apply Option.ext
      intro property
      rw [stored, storedToo, storage, fullName]
    subst same
    rw [← fullName] at readsToo
    exact ⟨_, _, reads, readsToo, relates member.fullName backed⟩

end MemberGraph
