import MemberGraph.Proofs.NamedRun
import MemberGraph.Proofs.Stubs

/-!
The outlines that an extraction starts from, told from metadata alone: which members a type gets from
its first definition, what they depend on, and which accessors its properties are linked to.
-/

set_option autoImplicit false

namespace MemberGraph

open Analysis

/-! ## Definitions -/

namespace MemberDefinition

def initialEdges : MemberDefinition → List NamedEdge
  | field definition =>
    [⟨.typeUse .field, definition.fullName, definition.fieldType.fullName⟩]
  | method _ => []
  | property definition =>
    [⟨.typeUse .property, definition.fullName, definition.propertyType.fullName⟩]

def fieldOutline? : MemberDefinition → Option FieldOutline
  | field definition =>
    some ⟨definition.name, definition.fullName, initialEdges (field definition)⟩
  | _ => none

def propertyOutline? (declares : String → Bool) : MemberDefinition → Option PropertyOutline
  | property definition =>
    some ⟨definition.name, definition.fullName, definition.getter.filter declares,
      definition.setter.filter declares⟩
  | _ => none

end MemberDefinition

def Metadata.outline (metadata : Metadata) (policy : CallPolicy) (typeName : String) : Outline where
  typeName
  fields := (metadata.firstMembersOf typeName).filterMap (·.fieldOutline?)
  properties := (metadata.firstMembersOf typeName).filterMap
    (·.propertyOutline? (metadata.declaresMethod typeName))
  declares := metadata.declaresMethod typeName
  resolves := metadata.resolves policy

def Metadata.visits (metadata : Metadata) (policy : CallPolicy) : List (Outline × MethodDefinition) :=
  (firstOf (·.fullName) metadata.definitions).flatMap fun definition =>
    definition.methods.map (metadata.outline policy definition.fullName, ·)

/-! ## Entering members -/

namespace Analysis

open Catalog

/-- A member that was entered after the definitions before it. -/
structure LoadedAs (catalog : Catalog) (before : List (String × MemberDefinition))
    (given : String × MemberDefinition) (member : Member) : Prop where
  names : catalog.Names given.1 member.declaringType
  isEntry : IsEntry member.declaringType given.2 member
  edges : catalog.Spells member.dependencies.toList given.2.initialEdges
  links : given.2.propertyOutline? (declaresAmong before given.1) =
    if member.isProperty then some (catalog.propertyOutline member) else none

def AsDeclared (catalog : Catalog) (done : List (String × MemberDefinition)) : Prop :=
  ∀ {id member}, catalog.member? id = some member → ∃ before given after,
    done = before ++ given :: after ∧ before.find? (·.2.fullName = member.fullName) = none ∧
      LoadedAs catalog before given member

section Loading

variable {analysis : Analysis} {old new : Catalog}

theorem LoadedAs.extended {before : List (String × MemberDefinition)}
    {given : String × MemberDefinition} {id : MemberId} {member : Member}
    (loaded : LoadedAs old before given member) (extended : old.Extends new)
    (formed : old.WellFormed) (found : old.member? id = some member) :
    LoadedAs new before given member where
  names := extended.names loaded.names
  isEntry := loaded.isEntry
  edges := loaded.edges.extended extended
  links := by rw [loaded.links, extended.propertyOutline formed found (.refl member)]

private theorem bind_methodNamed? {catalog : Catalog} (formed : catalog.WellFormed)
    (extended : catalog.Extends new) {on : TypeId} {declares : String → Bool}
    (declared : ∀ name, (catalog.methodNamed? on name).isSome = declares name)
    (accessor : Option String) :
    (accessor.bind (catalog.methodNamed? on)).bind new.memberName? = accessor.filter declares := by
  cases accessor with
  | none => rfl
  | some name =>
      rw [Option.bind_some, Option.filter, ← declared name]
      cases method : catalog.methodNamed? on name with
      | none => rfl
      | some id =>
          obtain ⟨member, found, rfl⟩ :=
            formed.memberNamed?_iff.mp (methodNamed?_eq_some_iff.mp method).1
          have named : catalog.memberName? id = some member.fullName := by simp [memberName?, found]
          simpa using extended.memberName? named

private theorem edge?_typeUse {catalog : Catalog} (formed : catalog.WellFormed) {id : MemberId}
    {member : Member} (found : catalog.member? id = some member) {name : String} {target : TypeId}
    (named : catalog.typeNamed? name = some target) (use : TypeUse) :
    catalog.edge? (.onType use id target) = some ⟨.typeUse use, member.fullName, name⟩ := by
  obtain ⟨entry, there, rfl⟩ := formed.typeNamed?_iff.mp named
  simp [Catalog.edge?, Catalog.named?, memberName?, Dependency.origin, found, there]

private theorem addTyped_loads {key : String} (fresh : analysis.catalog.memberNamed? key = none)
    (reference : TypeReference) (make : MemberId → Member) (use : TypeUse)
    (bare : ∀ id, (make id).dependencies = #[]) :
    let typed := analysis.typeFor reference
    let new := addTyped typed.2.catalog key make use typed.1
    let id : MemberId := ⟨analysis.catalog.members.size⟩
    Enters analysis.catalog new key { make id with dependencies := #[.onType use id typed.1] } ∧
      (new.WellFormed → new.Spells [.onType use id typed.1]
        [⟨.typeUse use, (make id).fullName, reference.fullName⟩]) := by
  intro typed new id
  have same : SameEntries analysis.catalog typed.2.catalog := typeFor_sameEntries reference
  have enters : Enters analysis.catalog new key
      { make id with dependencies := #[.onType use id typed.1] } := by
    have added := addTyped_enters ((same.memberNamed? _).trans fresh) make use typed.1
    simp only [bare, same.members] at added
    exact Enters.of_sameEntries same added
  refine ⟨enters, fun formedNew => ?_⟩
  have found := (enters.member? id).trans (if_pos rfl)
  have named : new.typeNamed? reference.fullName = some typed.1 :=
    (typeNamed?_addMember make reference.fullName).trans (typeFor_named reference)
  have spelled := edge?_typeUse formedNew found named use
  simp only [Spells, List.map_cons, List.map_nil, spelled]

private theorem loadMember_loadedAs (formed : analysis.catalog.WellFormed) {on : TypeId}
    {typeName : String}
    (names : analysis.catalog.Names typeName on) {done : List (String × MemberDefinition)}
    (entered : Entered analysis.catalog done) {definition : MemberDefinition}
    (fresh : analysis.catalog.memberNamed? definition.fullName = none) :
    ∃ member, Enters analysis.catalog (analysis.loadMember on definition).catalog
        definition.fullName member ∧
      LoadedAs (analysis.loadMember on definition).catalog done (typeName, definition) member := by
  obtain ⟨entry, typeFound, _⟩ := names.2
  have changes : Changes .existingOnly analysis.catalog
      (analysis.loadMember on definition).catalog :=
    loadMember_changes formed (hasType_of_type? typeFound) definition
  have formedNew := changes.wellFormed formed
  have namesNew := changes.names names
  cases definition with
  | field definition =>
      have opened : (analysis.loadMember on (.field definition)).catalog =
          addTyped (analysis.typeFor definition.fieldType).2.catalog definition.fullName
            (fieldEntry on (analysis.typeFor definition.fieldType).1 definition) .field
            (analysis.typeFor definition.fieldType).1 := loadField_of_fresh fresh on
      rw [opened] at formedNew namesNew ⊢
      obtain ⟨enters, spelled⟩ := addTyped_loads fresh definition.fieldType
        (fieldEntry on (analysis.typeFor definition.fieldType).1 definition) .field fun _ => rfl
      exact ⟨_, enters, namesNew, .field definition _ _, spelled formedNew, rfl⟩
  | method definition =>
      obtain ⟨member, isEntry, enters⟩ := loadMember_of_fresh fresh on
      cases isEntry with
      | method _ returnType parameters genericParameters id =>
          exact ⟨_, enters, namesNew, .method definition _ _ _ _, Spells.nil, rfl⟩
  | property definition =>
      have accessor := bind_methodNamed? formed
        (analysis.loadMember_extends on (.property definition)) (entered.methodNamed? formed names)
      have opened : (analysis.loadMember on (.property definition)).catalog =
          addTyped (analysis.typeFor definition.propertyType).2.catalog definition.fullName
            (propertyEntry on (analysis.typeFor definition.propertyType).1
              (definition.getter.bind (analysis.catalog.methodNamed? on))
              (definition.setter.bind (analysis.catalog.methodNamed? on)) definition)
            .property (analysis.typeFor definition.propertyType).1 := loadProperty_of_fresh fresh on
      rw [opened] at formedNew namesNew accessor ⊢
      obtain ⟨enters, spelled⟩ := addTyped_loads fresh definition.propertyType
        (propertyEntry on (analysis.typeFor definition.propertyType).1
          (definition.getter.bind (analysis.catalog.methodNamed? on))
          (definition.setter.bind (analysis.catalog.methodNamed? on)) definition) .property
        fun _ => rfl
      refine ⟨_, enters, namesNew, .property definition _ _ _ _, spelled formedNew, ?_⟩
      exact congrArg some ((PropertyOutline.mk.injEq ..).mpr
        ⟨rfl, rfl, (accessor definition.getter).symm, (accessor definition.setter).symm⟩)

private theorem AsDeclared.concat {catalog : Catalog} {done : List (String × MemberDefinition)}
    (declared : AsDeclared catalog done) (given : String × MemberDefinition) :
    AsDeclared catalog (done ++ [given]) := by
  intro id member found
  obtain ⟨before, first, after, rfl, missing, loaded⟩ := declared found
  exact ⟨before, first, after ++ [given], by simp, missing, loaded⟩

private theorem asDeclared_keptByMember :
    KeptByMember fun catalog done => MembersInOrder catalog done ∧ AsDeclared catalog done := by
  intro analysis on typeName done definition formed names ⟨inOrder, declared⟩
  refine ⟨MembersInOrder.keptByMember definition formed names inOrder, ?_⟩
  cases fresh : analysis.catalog.memberNamed? definition.fullName with
  | some id =>
      rw [loadMember_of_known fresh]
      exact declared.concat _
  | none =>
      obtain ⟨entry, enters, loaded⟩ :=
        loadMember_loadedAs formed names (inOrder.entered formed) fresh
      intro id member found
      rw [enters.member?] at found
      split at found
      · cases found
        refine ⟨done, _, [], rfl, ?_, loaded⟩
        have unknown := inOrder.memberNamed? formed definition.fullName
        rw [fresh, ← List.isSome_find?] at unknown
        rw [loaded.isEntry.fullName]
        simpa using unknown.symm
      · obtain ⟨before, first, after, split, missing, loadedBefore⟩ := declared.concat _ found
        exact ⟨before, first, after, split, missing,
          loadedBefore.extended (analysis.loadMember_extends on definition) formed found⟩

theorem allocated_asDeclared (metadata : Metadata) :
    AsDeclared (allocate {} metadata).2.catalog metadata.memberDefinitions := by
  refine (asDeclared_keptByMember.allocated metadata ⟨membersInOrder_start metadata, ?_⟩).2
  intro id member found
  simp [Catalog.member?, typesLoaded_members] at found

end Loading

end Analysis

/-! ## First definitions -/

theorem find?_of_mem_firstOf {α : Type} {name : α → String} {values : List α} {value : α}
    (there : value ∈ firstOf name values) :
    values.find? (name · = name value) = some value := by
  induction values with
  | nil => cases there
  | cons first rest ih =>
      rcases List.mem_cons.mp there with rfl | others
      · simp
      · obtain ⟨later, differs⟩ := List.mem_filter.mp others
        have other : name first ≠ name value := fun same => of_decide_eq_true differs same.symm
        simp [other, ih later]

namespace Metadata

/-- The methods of a type are entered before its properties. -/
theorem memberDefinitions_pairwise (metadata : Metadata) :
    metadata.memberDefinitions.Pairwise fun first second => first.1 = second.1 →
      second.2.isMethod → ∀ property, first.2 ≠ .property property := by
  refine List.pairwise_flatMap.mpr ⟨fun definition _ => List.pairwise_map.mpr ?_, ?_⟩
  · have notProperty : ∀ member ∈ definition.fields.map .field ++ definition.methods.map .method,
        ∀ property, member ≠ MemberDefinition.property property := by
      rintro member there property rfl
      simp at there
    refine List.pairwise_append.mpr ⟨?_, ?_, ?_⟩
    · exact List.pairwise_of_forall_mem_list fun first there _ _ _ _ => notProperty first there
    · refine List.pairwise_map.mpr (List.pairwise_of_forall_mem_list fun _ _ _ _ _ isMethod => ?_)
      cases isMethod
    · exact fun first there _ _ _ _ => notProperty first there
  · refine (firstOf_pairwise metadata.definitions).imp ?_
    intro first second differ one there other thereToo same
    obtain ⟨_, _, rfl⟩ := List.mem_map.mp there
    obtain ⟨_, _, rfl⟩ := List.mem_map.mp thereToo
    exact absurd same differ

private theorem declaresAmong_before {metadata : Metadata}
    {before after : List (String × MemberDefinition)}
    {typeName : String} {definition : PropertyDefinition}
    (split : metadata.memberDefinitions = before ++ (typeName, .property definition) :: after) :
    declaresAmong before typeName = metadata.declaresMethod typeName := by
  funext name
  rw [declaresMethod, declaresAmong, declaresAmong, split, List.find?_append]
  cases before.find? (·.2.fullName = name) with
  | some given => rfl
  | none =>
      rw [Option.none_or, Option.any_none, eq_comm, Option.any_eq_false]
      intro given found
      refine Bool.eq_false_iff.mpr fun isMethod => ?_
      obtain ⟨isMethod, onType⟩ : given.2.isMethod ∧ given.1 = typeName := by simpa using isMethod
      have ordered := metadata.memberDefinitions_pairwise
      rw [split, List.pairwise_append, List.pairwise_cons] at ordered
      rcases List.mem_cons.mp (List.mem_of_find?_eq_some found) with rfl | later
      · cases isMethod
      · exact ordered.2.1.1 given later onType.symm isMethod definition rfl

theorem find?_of_mem_firstMembersOf {metadata : Metadata} {typeName : String}
    {definition : MemberDefinition} (there : definition ∈ metadata.firstMembersOf typeName) :
    metadata.memberDefinitions.find? (·.2.fullName = definition.fullName) =
      some (typeName, definition) := by
  obtain ⟨⟨owner, same⟩, kept, rfl⟩ := List.mem_map.mp there
  obtain ⟨first, onType⟩ := List.mem_filter.mp kept
  cases of_decide_eq_true onType
  exact find?_of_mem_firstOf first

end Metadata

/-! ## Catalogs after the first pass -/

namespace Analysis

open Catalog

section Allocated

variable {metadata : Metadata}

theorem allocated_declared {id : MemberId} {member : Member}
    (found : (allocate {} metadata).2.catalog.member? id = some member) :
    ∃ given, metadata.memberDefinitions.find? (·.2.fullName = member.fullName) = some given ∧
      (allocate {} metadata).2.catalog.Names given.1 member.declaringType ∧
      IsEntry member.declaringType given.2 member ∧
      (allocate {} metadata).2.catalog.edgesAt id = given.2.initialEdges ∧
      given.2.propertyOutline? (metadata.declaresMethod given.1) =
        if member.isProperty then some ((allocate {} metadata).2.catalog.propertyOutline member)
        else none := by
  obtain ⟨before, given, after, split, missing, loaded⟩ := allocated_asDeclared metadata found
  refine ⟨given, ?_, loaded.names, loaded.isEntry, ?_, ?_⟩
  · rw [split, List.find?_append, missing, Option.none_or, List.find?_cons_of_pos]
    simp [loaded.isEntry.fullName]
  · have spelled := (allocated_wellFormed metadata).spells_edgesAt id
    rw [recordedDependencies, found, Option.elim_some] at spelled
    exact spelled.unique loaded.edges
  · rw [← loaded.links]
    obtain ⟨typeName, definition⟩ := given
    cases definition with
    | property definition => rw [Metadata.declaresAmong_before split]
    | field => rfl
    | method => rfl

theorem map_declaredMembers {α : Type} {on : TypeId} {entry : TypeEntry} {fits : Member → Bool}
    {shown : Member → α} {select : MemberDefinition → Option α}
    (found : (allocate {} metadata).2.catalog.type? on = some entry)
    (same : ∀ {id member definition}, (allocate {} metadata).2.catalog.member? id = some member →
      definition ∈ metadata.firstMembersOf entry.fullName → IsEntry on definition member →
      select definition = if fits member then some (shown member) else none) :
    (((allocate {} metadata).2.catalog.declaredMembers on).filter fits).map shown =
      (metadata.firstMembersOf entry.fullName).filterMap select := by
  have listed := allocated_members found
  simp only [declaredMembers, found]
  generalize metadata.firstMembersOf entry.fullName = definitions at listed same
  generalize entry.members.toList = declared at listed
  induction listed with
  | nil => rfl
  | @cons definition id others rest first _ ih =>
      obtain ⟨member, there, isEntry⟩ := first
      have further := ih fun found there => same found (List.mem_cons_of_mem _ there)
      rw [List.filterMap_cons, List.filterMap_cons, there, same there (by simp) isEntry]
      cases fitting : fits member with
      | true => simp [fitting, further]
      | false => simp [fitting, further]

theorem allocated_fieldOutlines {on : TypeId} {entry : TypeEntry}
    (typeFound : (allocate {} metadata).2.catalog.type? on = some entry) :
    ((allocate {} metadata).2.catalog.declaredFields on).map
        (allocate {} metadata).2.catalog.fieldOutline =
      (metadata.firstMembersOf entry.fullName).filterMap (·.fieldOutline?) := by
  refine map_declaredMembers typeFound fun {id member definition} found there isEntry => ?_
  obtain ⟨given, first, _, _, edges, _⟩ := allocated_declared found
  rw [isEntry.fullName, Metadata.find?_of_mem_firstMembersOf there] at first
  cases first
  simp only [edgesAt, recordedDependencies, found, Option.elim_some] at edges
  cases isEntry with
  | field definition target id =>
      exact congrArg some ((FieldOutline.mk.injEq ..).mpr ⟨rfl, rfl, edges.symm⟩)
  | method => rfl
  | property => rfl

theorem allocated_propertyOutlines {on : TypeId} {entry : TypeEntry}
    (typeFound : (allocate {} metadata).2.catalog.type? on = some entry) :
    ((allocate {} metadata).2.catalog.declaredProperties on).map
        (allocate {} metadata).2.catalog.propertyOutline =
      (metadata.firstMembersOf entry.fullName).filterMap
        (·.propertyOutline? (metadata.declaresMethod entry.fullName)) := by
  refine map_declaredMembers typeFound fun {id member definition} found there isEntry => ?_
  obtain ⟨given, first, _, _, _, links⟩ := allocated_declared found
  rw [isEntry.fullName, Metadata.find?_of_mem_firstMembersOf there] at first
  cases first
  exact links

/-- An extraction sees the types as metadata defines them. -/
theorem allocated_outline {loaded : LoadedType} (there : loaded ∈ (allocate {} metadata).1)
    (policy : CallPolicy) :
    (allocate {} metadata).2.catalog.outline policy loaded.1 =
      metadata.outline policy loaded.2.fullName := by
  have names := allocated_names metadata loaded there
  obtain ⟨entry, found, fullName⟩ := (allocated_wellFormed metadata).typeNamed?_iff.mp names.1
  unfold Catalog.outline Metadata.outline
  congr 1
  · rw [found, Option.elim_some, fullName]
  · rw [allocated_fieldOutlines found, fullName]
  · rw [allocated_propertyOutlines found, fullName]
  · exact funext (allocated_methodNamed? names)
  · exact funext (allocated_resolvable policy)

theorem outlines_allocated (policy : CallPolicy) :
    outlines (allocate {} metadata).2.catalog policy (visits (allocate {} metadata).1) =
      metadata.visits policy := by
  unfold outlines visits Metadata.visits
  rw [← allocated_loaded, List.flatMap_map, List.map_flatMap]
  refine List.flatMap_congr fun loaded there => ?_
  rw [List.map_map]
  refine List.map_congr_left fun method _ => ?_
  simp only [Function.comp_apply, allocated_outline there]

end Allocated

end Analysis

end MemberGraph
