import MemberGraph.Proofs.TypeOrder

/-!
Where calls lead. A call operand that is resolved leads to the member of its full name. That member is
a method of the type that the operand names, unless the name was taken before by another member: a
stub is made for a name that is new, and a name that is not new leads to whatever bears it. In a build
it is the fields and properties of the metadata that can stand in the way.
-/

set_option autoImplicit false

namespace MemberGraph

open Analysis

namespace Catalog

/-- A member is the method that a call operand names: it has the full name of the operand and is
declared on the type of the operand. -/
def Denotes (catalog : Catalog) (id : MemberId) (reference : MethodReference) : Prop :=
  ∃ member entry, catalog.member? id = some member ∧ member.isMethod ∧
    member.fullName = reference.fullName ∧ catalog.type? member.declaringType = some entry ∧
    entry.fullName = reference.declaringType.fullName

private theorem WellFormed.denotes_of_methodNamed? {catalog : Catalog} (formed : catalog.WellFormed)
    {on : TypeId} {reference : MethodReference} {id : MemberId}
    (typed : catalog.typeNamed? reference.declaringType.fullName = some on)
    (found : catalog.methodNamed? on reference.fullName = some id) :
    catalog.Denotes id reference := by
  obtain ⟨named, member, there, isMethod, declared⟩ := methodNamed?_eq_some_iff.mp found
  obtain ⟨same, sameFound, fullName⟩ := formed.memberNamed?_iff.mp named
  rw [there] at sameFound
  cases sameFound
  obtain ⟨entry, typeFound, typeName⟩ := formed.typeNamed?_iff.mp typed
  exact ⟨member, entry, there, isMethod, fullName, declared ▸ typeFound, typeName⟩

theorem Extends.denotes_iff {old new : Catalog} (extended : old.Extends new)
    (formed : old.WellFormed) {id : MemberId} {member : Member}
    (found : old.member? id = some member) (reference : MethodReference) :
    new.Denotes id reference ↔ old.Denotes id reference := by
  obtain ⟨later, there, memberExtended⟩ := extended.member? found
  obtain ⟨entry, typeFound⟩ := hasType_iff.mp (formed.knowsMember found).declaringType
  obtain ⟨laterEntry, typeThere, entryExtended⟩ := extended.type? typeFound
  constructor
  · rintro ⟨same, sameEntry, sameFound, isMethod, fullName, declared, typeName⟩
    rw [there] at sameFound
    cases sameFound
    rw [memberExtended.declaringType, typeThere] at declared
    cases declared
    exact ⟨member, entry, found, memberExtended.isMethod ▸ isMethod,
      memberExtended.fullName.symm.trans fullName, typeFound,
      entryExtended.fullName.symm.trans typeName⟩
  · rintro ⟨same, sameEntry, sameFound, isMethod, fullName, declared, typeName⟩
    rw [found] at sameFound
    cases sameFound
    rw [typeFound] at declared
    cases declared
    exact ⟨later, laterEntry, there, memberExtended.isMethod.trans isMethod,
      memberExtended.fullName.trans fullName, memberExtended.declaringType ▸ typeThere,
      entryExtended.fullName.trans typeName⟩

end Catalog

/-! ## Resolving -/

namespace Analysis

open Catalog

section Resolving

variable {analysis : Analysis} {reference : MethodReference}

private theorem methodFor_denotes (formed : analysis.catalog.WellFormed) {on : TypeId}
    (named : analysis.catalog.typeNamed? reference.declaringType.fullName = some on)
    (fresh : analysis.catalog.memberNamed? reference.fullName = none) :
    (analysis.methodFor on reference).2.catalog.Denotes
      (analysis.methodFor on reference).1 reference := by
  have missing : analysis.catalog.methodNamed? on reference.fullName = none := by
    cases found : analysis.catalog.methodNamed? on reference.fullName with
    | none => rfl
    | some id => rw [(methodNamed?_eq_some_iff.mp found).1] at fresh; cases fresh
  rw [methodFor_of_missing missing]
  dsimp only
  generalize returned : analysis.typeFor reference.returnType = withReturn
  generalize given : withReturn.2.typesFor reference.parameters = withParameters
  have grows : Grows .existingOnly analysis.catalog withParameters.2.catalog := by
    subst returned given
    exact (typeFor_grows _).trans (typesFor_grows _)
  have same : SameEntries analysis.catalog withParameters.2.catalog := by
    subst returned given
    exact (typeFor_sameEntries _).trans (typesFor_sameEntries _)
  have stillFresh := (same.memberNamed? reference.fullName).trans fresh
  obtain ⟨entry, found, typeName⟩ := formed.typeNamed?_iff.mp named
  obtain ⟨later, there, extended⟩ := (grows.extends.trans (extends_addMember _ _)).type? found
  refine ⟨_, later, (member?_addMember_iff _ stillFresh).mpr (.inl ⟨?_, rfl⟩), rfl, rfl, there,
    extended.fullName.trans typeName⟩
  exact addMember_fst _ stillFresh

/-- A call that is resolved leads to the member of its name. That is the method which was called,
exactly if no other member had the name before. -/
theorem resolve_denotes_iff (formed : analysis.catalog.WellFormed) {policy : CallPolicy}
    {id : MemberId} (resolved : (analysis.resolve policy reference).1 = some id) :
    (analysis.resolve policy reference).2.catalog.Denotes id reference ↔
      ∀ holder, analysis.catalog.memberNamed? reference.fullName = some holder →
        analysis.catalog.Denotes holder reference := by
  have grows : Grows policy analysis.catalog (analysis.resolve policy reference).2.catalog :=
    resolve_grows formed.sound reference
  cases known : analysis.catalog.memberNamed? reference.fullName with
  | some holder =>
      have same := grows.extends.memberNamed? known
      rw [resolve_named resolved, Option.some.injEq] at same
      subst same
      obtain ⟨member, found, _⟩ := formed.memberNamed?_iff.mp known
      simp only [Option.some.injEq, forall_eq', grows.extends.denotes_iff formed found]
  | none =>
      refine iff_of_true ?_ (by simp)
      have typed := ((typeFor_sameEntries reference.declaringType).memberNamed?
        reference.fullName).trans known
      rcases resolve_cases policy reference with ⟨other, found, _⟩ | ⟨_, _, equal⟩ |
        ⟨_, _, unresolved, _⟩
      · rw [(methodNamed?_eq_some_iff.mp found).1] at typed
        cases typed
      · have withType : Grows policy analysis.catalog
            (analysis.typeFor reference.declaringType).2.catalog := typeFor_grows _
        rw [equal] at resolved ⊢
        cases resolved
        exact methodFor_denotes (withType.wellFormed formed) (typeFor_named _) typed
      · rw [unresolved] at resolved
        cases resolved

private theorem resolve_denotes_of_existing (formed : analysis.catalog.WellFormed) {id : MemberId}
    (resolved : (analysis.resolve .existingOnly reference).1 = some id) :
    (analysis.resolve .existingOnly reference).2.catalog.Denotes id reference := by
  rcases resolve_cases .existingOnly reference with ⟨other, found, equal⟩ |
    ⟨_, ⟨unwanted, _⟩, _⟩ | ⟨_, _, unresolved, _⟩
  · have withType : Grows .existingOnly analysis.catalog
        (analysis.typeFor reference.declaringType).2.catalog := typeFor_grows _
    rw [equal] at resolved ⊢
    cases resolved
    exact (withType.wellFormed formed).denotes_of_methodNamed? (typeFor_named _) found
  · cases unwanted
  · rw [unresolved] at resolved
    cases resolved

end Resolving

end Analysis

/-! ## Recorded calls -/

def NamedEdge.callee? (edge : NamedEdge) : Option String :=
  if edge.kind = .call then some edge.target else none

theorem NamedEdge.callee?_eq_some_iff {edge : NamedEdge} {name : String} :
    edge.callee? = some name ↔ edge.kind = .call ∧ edge.target = name := by
  rw [callee?, Option.ite_none_right_eq_some, Option.some.injEq]

namespace EdgeLog

def callees (log : EdgeLog) : List String := log.filterMap (·.2.callee?)

theorem callees_append (first second : EdgeLog) :
    callees (first ++ second) = first.callees ++ second.callees := List.filterMap_append

theorem callees_to (holder : String) (edges : List NamedEdge) :
    (EdgeLog.to holder edges).callees = edges.filterMap (·.callee?) := by
  rw [EdgeLog.to, callees, List.filterMap_map]
  rfl

end EdgeLog

namespace Outline

/-- The call operands of a method that are looked up: those that the body of an accessor calls, if a
property is found for it, and all of another method. -/
def readOperands (outline : Outline) (method : MethodDefinition) : List MethodReference :=
  if method.isGetter || method.isSetter then
    (outline.tied? method).elim [] fun _ => method.body.elim [] (callOperands ·.instructions)
  else
    ownOperands method

def recordedCalls (outline : Outline) (method : MethodDefinition) : List MethodReference :=
  if outline.declares method.fullName then (outline.readOperands method).filter outline.resolves
  else []

def FieldsPlain (outline : Outline) : Prop :=
  ∀ field ∈ outline.fields, ∀ edge ∈ field.edges, edge.kind ≠ .call

variable {outline : Outline}

theorem callees_calls (origin : String) (references : List MethodReference) :
    (outline.calls origin references).filterMap (·.callee?) =
      (references.filter outline.resolves).map (·.fullName) := by
  rw [calls, List.filterMap_map, ← List.filterMap_eq_map]
  rfl

private theorem FieldsPlain.callees_inherited (plain : outline.FieldsPlain) (storage : Storage)
    (property : String) : (outline.inherited storage property).filterMap (·.callee?) = [] := by
  unfold inherited
  cases storage property with
  | none => rfl
  | some name =>
      rw [Option.elim_some]
      cases found : outline.fields.find? (·.fullName == name) with
      | none => rfl
      | some field =>
          refine List.filterMap_eq_nil_iff.mpr fun edge there => ?_
          exact if_neg (plain field (List.mem_of_find?_eq_some found) edge there)

private theorem callees_own (method : MethodDefinition) :
    (outline.own method).filterMap (·.callee?) =
      ((ownOperands method).filter outline.resolves).map (·.fullName) := by
  rw [own, List.filterMap_append, List.filterMap_append, callees_calls]
  simp [List.filterMap_map, NamedEdge.callee?]

private theorem callees_attachAll (calls : List (MethodReference × FieldReference)) :
    (outline.attachAll calls).log.callees ⊆
      ((calls.map (·.1)).filter outline.resolves).map (·.fullName) := by
  induction calls with
  | nil => exact List.Subset.refl _
  | cons call rest ih =>
      have first : (outline.attach call).log.callees ⊆
          (([call.1]).filter outline.resolves).map (·.fullName) := by
        unfold attach
        split
        · rw [EdgeLog.callees_to, callees_calls]
          exact List.Subset.refl _
        · exact List.nil_subset _
      rw [attachAll, Yield.append, EdgeLog.callees_append, List.map_cons, ← List.singleton_append,
        List.filter_append, List.map_append]
      exact List.append_subset.mpr ⟨List.subset_append_of_subset_left _ first,
        List.subset_append_of_subset_right _ ih⟩

private theorem FieldsPlain.mem_callees_given (plain : outline.FieldsPlain) (storage : Storage)
    (method : MethodDefinition) (name : String) :
    name ∈ (outline.given storage method).log.callees ++
        ((ownOperands method).filter outline.resolves).map (·.fullName) ↔
      name ∈ ((outline.readOperands method).filter outline.resolves).map (·.fullName) := by
  have flagged : (method.isGetter || method.isSetter) = method.isAccessor := rfl
  unfold given readOperands
  simp only [ownOperands_eq, flagged, callOperands_eq]
  cases method.body with
  | none => cases method.isAccessor <;> cases outline.tied? method <;> exact Iff.rfl
  | some body =>
      cases method.isAccessor with
      | true =>
          cases outline.tied? method with
          | none => exact Iff.rfl
          | some property =>
              simp only [if_true, Option.elim_some, tie, EdgeLog.callees_append,
                EdgeLog.callees_to, List.filterMap_append, callees_calls, plain.callees_inherited,
                List.append_nil, List.filter_nil, List.map_nil, List.mem_append, or_self]
      | false =>
          simp only [Bool.false_eq_true, if_false, Option.elim_some, Yield.append,
            List.append_nil, List.mem_append, or_iff_right_iff_imp]
          intro there
          exact (((storedCalls_sublist outline.typeName body).filter _).map _).subset
            (callees_attachAll _ there)

private theorem FieldsPlain.mem_callees_yield (plain : outline.FieldsPlain) (storage : Storage)
    (method : MethodDefinition) (name : String) :
    name ∈ (outline.yield storage method).log.callees ↔
      name ∈ (outline.recordedCalls method).map (·.fullName) := by
  unfold yield recordedCalls
  split
  · rw [Yield.append, EdgeLog.callees_append, EdgeLog.callees_to, callees_own,
      plain.mem_callees_given]
  · exact Iff.rfl

end Outline

private theorem mem_callees_runYield {visited : Visits} (plain : ∀ one ∈ visited, one.1.FieldsPlain)
    (storage : Storage) (name : String) :
    name ∈ (runYield storage visited).log.callees ↔
      name ∈ (visited.flatMap fun one => one.1.recordedCalls one.2).map (·.fullName) := by
  induction visited generalizing storage with
  | nil => exact Iff.rfl
  | cons one rest ih =>
      rw [runYield, Yield.append, EdgeLog.callees_append, List.mem_append,
        (plain one (by simp)).mem_callees_yield, ih fun one there => plain one (by simp [there]),
        List.flatMap_cons, List.map_append, List.mem_append]

namespace Metadata

variable (metadata : Metadata) (policy : CallPolicy)

def recordedCalls : List MethodReference :=
  (metadata.visits policy).flatMap fun one => one.1.recordedCalls one.2

theorem visit_outline {one : Outline × MethodDefinition} (there : one ∈ metadata.visits policy) :
    ∃ typeName, one.1 = metadata.outline policy typeName := by
  obtain ⟨definition, _, listed⟩ := List.mem_flatMap.mp there
  obtain ⟨_, _, rfl⟩ := List.mem_map.mp listed
  exact ⟨_, rfl⟩

private theorem outline_fieldsPlain (typeName : String) :
    (metadata.outline policy typeName).FieldsPlain := by
  intro field there edge listed
  obtain ⟨definition, _, shown⟩ := List.mem_filterMap.mp there
  cases definition with
  | field definition =>
      cases shown
      cases List.mem_singleton.mp listed
      exact DependencyKind.noConfusion
  | method => cases shown
  | property => cases shown

private theorem mem_callees_run (name : String) :
    name ∈ (metadata.run policy).log.callees ↔
      ∃ reference ∈ metadata.recordedCalls policy, reference.fullName = name := by
  rw [← List.mem_map, run, recordedCalls]
  refine mem_callees_runYield (fun one there => ?_) _ name
  obtain ⟨typeName, same⟩ := metadata.visit_outline policy there
  rw [same]
  exact metadata.outline_fieldsPlain policy typeName

private theorem resolves_of_recorded {reference : MethodReference}
    (recorded : reference ∈ metadata.recordedCalls policy) : metadata.resolves policy reference := by
  obtain ⟨one, visited, there⟩ := List.mem_flatMap.mp recorded
  obtain ⟨typeName, same⟩ := metadata.visit_outline policy visited
  rw [same, Outline.recordedCalls] at there
  split at there
  · exact (List.mem_filter.mp there).2
  · cases there

private theorem initialEdges_plain {definition : MemberDefinition} :
    definition.initialEdges.filterMap (·.callee?) = [] := by
  cases definition <;> rfl

private theorem mem_callees_edgesOf {holder name : String} :
    name ∈ (metadata.edgesOf policy holder).filterMap (·.callee?) ↔
      ∃ edge : NamedEdge, (holder, edge) ∈ (metadata.run policy).log ∧ edge.callee? = some name := by
  have initial : ((metadata.memberDefinitions.find? (·.2.fullName = holder)).elim []
      (·.2.initialEdges)).filterMap (·.callee?) = [] := by
    cases metadata.memberDefinitions.find? (·.2.fullName = holder) with
    | none => rfl
    | some given => exact initialEdges_plain
  rw [edgesOf, List.filterMap_append, initial, List.nil_append, EdgeLog.edgesOf]
  simp [List.mem_filterMap]

end Metadata

/-! ## Builds -/

namespace Catalog

variable {catalog : Catalog}

theorem Spells.mem_iff {dependencies : List Dependency} {edges : List NamedEdge}
    (spells : catalog.Spells dependencies edges) {edge : NamedEdge} :
    edge ∈ edges ↔ ∃ dependency ∈ dependencies, catalog.edge? dependency = some edge := by
  have listed : some edge ∈ dependencies.map catalog.edge? ↔ some edge ∈ edges.map some := by
    rw [spells]
  simpa [List.mem_map] using listed.symm

private theorem callee?_of_edge? {dependency : Dependency} {edge : NamedEdge}
    (spelled : catalog.edge? dependency = some edge) (name : String) :
    edge.callee? = some name ↔ ∃ target called, dependency.callee? = some target ∧
      catalog.member? target = some called ∧ called.fullName = name := by
  have named := (edge?_eq_some_iff.mp spelled).2
  rw [NamedEdge.callee?_eq_some_iff]
  cases dependency with
  | onType use origin target =>
      obtain ⟨entry, _, used⟩ := Option.map_eq_some_iff.mp named
      rw [← (NamedDependency.mk.inj used).1]
      simp [Dependency.callee?]
  | call origin target =>
      obtain ⟨called, found, used⟩ := Option.map_eq_some_iff.mp named
      rw [← (NamedDependency.mk.inj used).1, ← (NamedDependency.mk.inj used).2]
      simp [Dependency.callee?, found]

def IsCalled (catalog : Catalog) (target : MemberId) : Prop :=
  ∃ id member origin, catalog.member? id = some member ∧
    .call origin target ∈ member.dependencies

theorem IsCalled.known {target : MemberId} (isCalled : catalog.IsCalled target)
    (formed : catalog.WellFormed) : catalog.hasMember target := by
  obtain ⟨id, member, origin, found, recorded⟩ := isCalled
  exact ((formed.knowsMember found).dependencies _ recorded).2

end Catalog

namespace Analysis

open Catalog

section Built

variable {options : Options} {metadata : Metadata} {architecture : Architecture}
  (built : (Architecture.build options metadata).1 = .ok architecture)
include built

theorem built_log_holder {holder : String} {edge : NamedEdge}
    (logged : (holder, edge) ∈ (metadata.run options.callPolicy).log) :
    architecture.catalog.DefinesMember holder := by
  have owns : ∀ one ∈ metadata.visits options.callPolicy, one.1.OwnsAccessors := by
    intro one there
    obtain ⟨typeName, same⟩ := metadata.visit_outline options.callPolicy there
    rw [same]
    exact metadata.outline_ownsAccessors options.callPolicy typeName
  obtain ⟨one, listed, owned⟩ := runYield_owned owns _ logged
  obtain ⟨typeName, same⟩ := metadata.visit_outline options.callPolicy listed
  rw [same] at owned
  obtain ⟨given, first, _⟩ :=
    Option.map_eq_some_iff.mp (metadata.outline_owner options.callPolicy owned)
  rw [built_definesMember built, first]
  rfl

/-- The members that are called are those that the recorded operands name. -/
theorem built_isCalled_iff {target : MemberId} {called : Member}
    (there : architecture.catalog.member? target = some called) :
    architecture.catalog.IsCalled target ↔
      ∃ reference ∈ metadata.recordedCalls options.callPolicy,
        reference.fullName = called.fullName := by
  have formed := built_wellFormed built
  rw [← metadata.mem_callees_run]
  constructor
  · rintro ⟨id, member, origin, found, recorded⟩
    have defined : member.isStub = false := by
      rw [(built_member? built found).1, Bool.eq_false_iff]
      intro onStub
      rw [built_stubsBare built found onStub] at recorded
      exact Array.not_mem_empty _ recorded
    have known := (formed.knowsMember found).dependencies _ recorded
    obtain ⟨edge, spelled⟩ := Option.isSome_iff_exists.mp known.edge?_isSome
    have listed := (built_dependencies built found defined).mem_iff.mpr
      ⟨_, Array.mem_toList_iff.mpr recorded, spelled⟩
    have isCall := (callee?_of_edge? spelled _).mpr ⟨target, called, rfl, there, rfl⟩
    obtain ⟨logged, inLog, sameCall⟩ := (metadata.mem_callees_edgesOf options.callPolicy).mp
      (List.mem_filterMap.mpr ⟨edge, listed, isCall⟩)
    exact List.mem_filterMap.mpr ⟨_, inLog, sameCall⟩
  · intro named
    obtain ⟨⟨holder, logged⟩, inLog, isLoggedCall⟩ := List.mem_filterMap.mp named
    obtain ⟨id, member, found, defined, rfl⟩ := built_log_holder built inLog
    obtain ⟨edge, listed, isCall⟩ := List.mem_filterMap.mp
      ((metadata.mem_callees_edgesOf options.callPolicy).mpr ⟨logged, inLog, isLoggedCall⟩)
    obtain ⟨dependency, recorded, spelled⟩ :=
      (built_dependencies built found defined).mem_iff.mp listed
    obtain ⟨callee, sameCalled, leads, calleeFound, sameName⟩ :=
      (callee?_of_edge? spelled _).mp isCall
    cases formed.member?_inj calleeFound there sameName
    cases dependency with
    | onType use origin on => cases leads
    | call origin on =>
        cases leads
        exact ⟨id, member, origin, found, Array.mem_toList_iff.mp recorded⟩

theorem built_isMethod_iff {id : MemberId} {member : Member}
    (found : architecture.catalog.member? id = some member) :
    member.isMethod ↔ ∀ given,
      metadata.memberDefinitions.find? (·.2.fullName = member.fullName) = some given →
        given.2.isMethod := by
  cases isStub : member.isStub with
  | true =>
      obtain ⟨parameters, role⟩ := ((built_member? built found).2 isStub).2
      refine iff_of_true (by simp [Member.isMethod, Member.method?, role]) fun given first => ?_
      -- A name that is defined is not that of a stub.
      obtain ⟨other, definedMember, otherFound, defined, sameName⟩ :=
        (built_definesMember built member.fullName).mpr (by rw [first]; rfl)
      cases (built_wellFormed built).member?_inj otherFound found sameName
      rw [found] at otherFound
      cases otherFound
      rw [isStub] at defined
      cases defined
  | false =>
      obtain ⟨before, there, extended⟩ := built_loaded built found isStub
      obtain ⟨given, first, _, isEntry, _⟩ := allocated_declared there
      rw [extended.fullName, first, extended.isMethod, isEntry.matches.isMethod]
      simp

end Built

end Analysis

open Catalog

/-- Under either policy, a call that is resolved leads to the member of the name that was called. It
is the method of the type that was called, exactly if no other member had the name before, so always
if no stubs are wanted. In a build every call leads to a method, exactly if no operand whose call is
recorded has an undefined type and the name of a field or a property. -/
theorem resolved_calls_denote (policy : CallPolicy) :
    (∀ (analysis : Analysis) (reference : MethodReference) (id : MemberId),
      analysis.catalog.WellFormed → (analysis.resolve policy reference).1 = some id →
      let later := (analysis.resolve policy reference).2.catalog
      later.memberNamed? reference.fullName = some id ∧
      (∃ called, later.member? id = some called ∧ called.fullName = reference.fullName) ∧
      (later.Denotes id reference ↔
        ∀ holder, analysis.catalog.memberNamed? reference.fullName = some holder →
          analysis.catalog.Denotes holder reference) ∧
      (policy = .existingOnly → later.Denotes id reference)) ∧
    ∀ (options : Options) (metadata : Metadata) (architecture : Architecture),
      options.callPolicy = policy → (Architecture.build options metadata).1 = .ok architecture →
      ((∀ target, architecture.catalog.IsCalled target →
          ∃ called, architecture.catalog.member? target = some called ∧ called.isMethod) ↔
        ∀ reference ∈ metadata.recordedCalls policy,
          metadata.defines reference.declaringType.fullName = false →
          ∀ given,
            metadata.memberDefinitions.find? (·.2.fullName = reference.fullName) = some given →
              given.2.isMethod) := by
  refine ⟨fun analysis reference id formed resolved => ⟨resolve_named resolved, ?_,
    resolve_denotes_iff formed resolved, ?_⟩, ?_⟩
  · have grows : Grows policy analysis.catalog (analysis.resolve policy reference).2.catalog :=
      resolve_grows formed.sound reference
    exact (grows.wellFormed formed).memberNamed?_iff.mp (resolve_named resolved)
  · rintro rfl
    exact resolve_denotes_of_existing formed resolved
  rintro options metadata architecture rfl built
  constructor
  · intro methods reference recorded _ given first
    obtain ⟨target, called, found, _, fullName⟩ :=
      (built_definesMember built reference.fullName).mpr (by rw [first]; rfl)
    obtain ⟨same, sameFound, isMethod⟩ := methods target
      ((built_isCalled_iff built found).mpr ⟨reference, recorded, fullName.symm⟩)
    rw [found] at sameFound
    cases sameFound
    exact (built_isMethod_iff built found).mp isMethod given (fullName ▸ first)
  · intro free target isCalled
    obtain ⟨called, found⟩ := hasMember_iff.mp (isCalled.known (built_wellFormed built))
    refine ⟨called, found, (built_isMethod_iff built found).mpr fun given first => ?_⟩
    obtain ⟨reference, recorded, fullName⟩ := (built_isCalled_iff built found).mp isCalled
    rw [← fullName] at first
    cases defined : metadata.defines reference.declaringType.fullName with
    | false => exact free reference recorded defined given first
    | true =>
        -- On a defined type an operand is resolved only if its name is that of a method.
        have resolves := metadata.resolves_of_recorded options.callPolicy recorded
        rw [Metadata.resolves, if_pos defined, Metadata.declaresMethod, declaresAmong, first,
          Option.any_some, Bool.and_eq_true] at resolves
        exact resolves.1

/-- An operand that names the property of a box as if it were a method, on the type of the boxes of
numbers. -/
def itemReference : MethodReference where
  declaringType := { fullName := "Shop.Box<Sys.Int>" }
  name := "Item"
  fullName := "Shop.Box::Item"
  returnType := { fullName := "Sys.Int" }

def boxMetadata (operands : List MethodReference) : Metadata :=
  let box : TypeReference := { fullName := "Shop.Box" }
  let int : TypeReference := { fullName := "Sys.Int" }
  { assemblies :=
      [{ name := "shop"
         types :=
          [{ fullName := box.fullName
             methods :=
              [{ MethodDefinition.ofSignature box "Open" int [] with
                 body := some
                  { instructions := operands.map fun operand =>
                      { opcode := .callvirt, operand := some (.method operand) } } }]
             properties :=
              [{ name := "Item", fullName := "Shop.Box::Item", propertyType := int }] }] }] }

/-- Boxes that are only opened: all calls lead to methods, and so does one that is new. -/
theorem resolved_calls_denote_open :
    let int : TypeReference := { fullName := "Sys.Int" }
    let operand : MethodReference := .ofSignature { fullName := "Shop.Box" } "Open" int []
    let other : MethodReference := .ofSignature { fullName := "Sys.Console" } "Read" int []
    ∃ architecture, (Architecture.build {} (boxMetadata [operand])).1 = .ok architecture ∧
      let analysis : Analysis := { catalog := architecture.catalog }
      analysis.catalog.WellFormed ∧ (analysis.resolve .stubExternal other).1 = some ⟨2⟩ ∧
      (analysis.resolve .stubExternal other).2.catalog.Denotes ⟨2⟩ other ∧
      analysis.catalog.IsCalled ⟨0⟩ ∧
      ∃ called, analysis.catalog.member? ⟨0⟩ = some called ∧ called.isMethod := by
  intro int operand other
  obtain ⟨architecture, built, evaluated⟩ := @build_passes {} (boxMetadata [operand])
    (fun architecture : Architecture =>
      (({ catalog := architecture.catalog } : Analysis).resolve .stubExternal other).1 = some ⟨2⟩ &&
        architecture.catalog.memberNamed? other.fullName = none &&
        (architecture.catalog.member? ⟨0⟩).any fun member : Member =>
          decide (Dependency.call ⟨0⟩ ⟨0⟩ ∈ member.dependencies))
    (by decide +kernel)
  simp only [Bool.and_eq_true, decide_eq_true_eq] at evaluated
  obtain ⟨⟨resolved, fresh⟩, calls⟩ := evaluated
  obtain ⟨member, found, recorded⟩ := (Option.any_eq_true ..).mp calls
  have formed := built_wellFormed built
  have isCalled : architecture.catalog.IsCalled ⟨0⟩ :=
    ⟨_, member, _, found, of_decide_eq_true recorded⟩
  obtain ⟨resolving, building⟩ := resolved_calls_denote .stubExternal
  refine ⟨architecture, built, formed, resolved, ?_, isCalled, ?_⟩
  · refine (resolving { catalog := architecture.catalog } other _ formed resolved).2.2.1.mpr ?_
    rw [fresh]
    simp
  · refine (building {} _ architecture rfl built).mpr ?_ ⟨0⟩ isCalled
    decide +kernel

/-- A call can lead to a property, of a type that was not called. -/
theorem resolved_call_of_property :
    ∃ architecture,
      (Architecture.build {} (boxMetadata [itemReference])).1 = .ok architecture ∧
      let analysis : Analysis := { catalog := architecture.catalog }
      analysis.catalog.WellFormed ∧
      (∃ called, analysis.catalog.IsCalled ⟨1⟩ ∧
        analysis.catalog.member? ⟨1⟩ = some called ∧ called.isMethod = false) ∧
      (analysis.resolve .stubExternal itemReference).1 = some ⟨1⟩ ∧
      ¬(analysis.resolve .stubExternal itemReference).2.catalog.Denotes ⟨1⟩ itemReference := by
  obtain ⟨architecture, built, evaluated⟩ := @build_passes {} (boxMetadata [itemReference])
    (fun architecture : Architecture =>
      let resolved :=
        ({ catalog := architecture.catalog } : Analysis).resolve .stubExternal itemReference
      resolved.1 = some ⟨1⟩ && (resolved.2.catalog.member? ⟨1⟩).all (!Member.isMethod ·) &&
        ((architecture.catalog.member? ⟨1⟩).any (!Member.isMethod ·) &&
          (architecture.catalog.member? ⟨0⟩).any fun member : Member =>
            decide (Dependency.call ⟨0⟩ ⟨1⟩ ∈ member.dependencies)))
    (by decide +kernel)
  simp only [Bool.and_eq_true, decide_eq_true_eq] at evaluated
  obtain ⟨⟨resolved, noMethod⟩, isProperty, calls⟩ := evaluated
  obtain ⟨caller, callerFound, recorded⟩ := (Option.any_eq_true ..).mp calls
  obtain ⟨called, found, notMethod⟩ := (Option.any_eq_true ..).mp isProperty
  refine ⟨architecture, built, built_wellFormed built, ⟨called, ?_, found, by simpa using notMethod⟩,
    resolved, ?_⟩
  · exact ⟨_, caller, _, callerFound, of_decide_eq_true recorded⟩
  · rintro ⟨member, entry, there, isMethod, _⟩
    rw [there, Option.all_some, isMethod] at noMethod
    cases noMethod

end MemberGraph
