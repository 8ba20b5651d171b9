import MemberGraph.Proofs.Allocation

/-!
The dependencies that an analysis gives to ordinary methods, which are no accessors. They follow from
metadata alone, definition by definition, whatever else is extracted before or in between.
-/

set_option autoImplicit false

namespace MemberGraph

/-! ## What metadata declares -/

namespace Metadata

/-- Whether the type of a name has a method: the first member definition of the method's name is a
method's, and one of the type. -/
def declaresMethod (metadata : Metadata) : String → String → Bool :=
  declaresAmong metadata.memberDefinitions

/-- Whether a call leads to a method. On a type that is defined, the name has to be that of a method
of the type, by its first definition; elsewhere it is for the policy to say. -/
def resolves (metadata : Metadata) (policy : CallPolicy) (reference : MethodReference) : Bool :=
  if metadata.defines reference.declaringType.fullName then
    metadata.declaresMethod reference.declaringType.fullName reference.fullName
  else
    policy = .stubExternal

def usesOf (metadata : Metadata) (policy : CallPolicy) (method : MethodDefinition) :
    List NamedDependency :=
  (method.returnType :: method.parameters ++ method.genericParameters).map
    (⟨.typeUse .signature, ·.fullName⟩) ++
  match method.body with
  | none => []
  | some body =>
    (body.localVariableTypes ++ typeOperands body.instructions).map
      (⟨.typeUse .body, ·.fullName⟩) ++
    ((methodOperands body.instructions).filter (metadata.resolves policy)).map
      (⟨.call, ·.fullName⟩)

/-- The definitions of a method: those of its name in the first definition of its type. -/
def methodDefinitions (metadata : Metadata) (typeName methodName : String) :
    List MethodDefinition :=
  match metadata.definitions.find? (·.fullName = typeName) with
  | none => []
  | some definition => definition.methods.filter (·.fullName = methodName)

end Metadata

namespace Catalog

def isAccessor (catalog : Catalog) (id : MemberId) : Bool :=
  catalog.members.any fun member => member.property?.any fun links =>
    links.getter = some id || links.setter = some id

theorem isAccessor_iff {catalog : Catalog} {id : MemberId} :
    catalog.isAccessor id ↔ ∃ property member links, catalog.member? property = some member ∧
      member.property? = some links ∧ (links.getter = some id ∨ links.setter = some id) := by
  unfold isAccessor
  rw [Array.any_eq_true']
  constructor
  · rintro ⟨member, there, linked⟩
    obtain ⟨index, found⟩ := Array.getElem?_of_mem there
    obtain ⟨links, isProperty, isLink⟩ := (Option.any_eq_true ..).mp linked
    exact ⟨⟨index⟩, member, links, found, isProperty, by simpa using isLink⟩
  · rintro ⟨property, member, links, found, isProperty, isLink⟩
    refine ⟨member, Array.mem_of_getElem? found, ?_⟩
    simpa [isProperty] using isLink

private theorem isAccessor_later {old new : Catalog}
    (kept : ∀ {id member}, old.member? id = some member →
      ∃ later, new.member? id = some later ∧ member.Extends later)
    {id : MemberId} (linked : old.isAccessor id) : new.isAccessor id := by
  obtain ⟨property, member, links, found, isProperty, isLink⟩ := isAccessor_iff.mp linked
  obtain ⟨later, there, extended⟩ := kept found
  obtain ⟨laterLinks, stillProperty, getter, setter⟩ := extended.property? isProperty
  refine isAccessor_iff.mpr ⟨property, later, laterLinks, there, stillProperty, ?_⟩
  rwa [getter, setter]

theorem Updated.named? {old new : Catalog} (updated : old.Updated new) (dependency : Dependency) :
    new.named? dependency = old.named? dependency := by
  cases dependency with
  | onType use origin target =>
      have related := updated.types target
      simp only [Catalog.named?]
      generalize old.type? target = before, new.type? target = after at related ⊢
      cases related with
      | none => rfl
      | some same => simp [same.fullName]
  | call origin target =>
      have related := updated.members target
      simp only [Catalog.named?]
      generalize old.member? target = before, new.member? target = after at related ⊢
      cases related with
      | none => rfl
      | some extended => simp [extended.fullName]

end Catalog

theorem flatMap_filter {α β : Type} (chosen : α → Bool) (select : α → List β)
    (values : List α) :
    (values.filter chosen).flatMap select =
      values.flatMap fun value => if chosen value then select value else [] := by
  induction values with
  | nil => rfl
  | cons value rest ih =>
      rw [List.filter_cons, List.flatMap_cons, ← ih]
      split <;> rfl

namespace Analysis

open Catalog

section Allocated

variable {metadata : Metadata}

theorem allocated_methodNamed? {typeName : String} {on : TypeId}
    (names : (allocate {} metadata).2.catalog.Names typeName on) (name : String) :
    ((allocate {} metadata).2.catalog.methodNamed? on name).isSome =
      metadata.declaresMethod typeName name :=
  (allocated_entered metadata).methodNamed? (allocated_wellFormed metadata) names name

theorem allocated_methodNamed?_of_stub {on : TypeId}
    (stub : (allocate {} metadata).2.catalog.isStubType on) (name : String) :
    (allocate {} metadata).2.catalog.methodNamed? on name = none := by
  cases method : (allocate {} metadata).2.catalog.methodNamed? on name with
  | none => rfl
  | some id =>
      obtain ⟨_, member, found, _, rfl⟩ := methodNamed?_eq_some_iff.mp method
      obtain ⟨_, _, names, _⟩ := allocated_member metadata found
      rw [names.2.isStubType] at stub
      cases stub

theorem allocated_resolvable (policy : CallPolicy) (reference : MethodReference) :
    (allocate {} metadata).2.catalog.resolvable policy reference =
      metadata.resolves policy reference := by
  unfold Catalog.resolvable Metadata.resolves
  rw [← allocated_isDefined metadata]
  cases defined : isDefined (allocate {} metadata).2.catalog reference.declaringType.fullName with
  | true =>
      obtain ⟨on, names⟩ := isDefined_iff.mp defined
      rw [names.1]
      simp [allocated_methodNamed? names, names.2.isStubType, Metadata.declaresMethod]
  | false =>
      cases named : (allocate {} metadata).2.catalog.typeNamed? reference.declaringType.fullName with
      | none => rfl
      | some on =>
          obtain ⟨entry, found, _⟩ := (allocated_wellFormed metadata).typeNamed?_iff.mp named
          have stub : (allocate {} metadata).2.catalog.isStubType on := by
            simpa [isDefined, named, found, Catalog.isStubType] using defined
          simp [allocated_methodNamed?_of_stub stub, stub]

theorem allocated_ownUses (policy : CallPolicy) {method : MethodDefinition}
    (plain : method.isAccessor = false) :
    ownUses (allocate {} metadata).2.catalog policy method = metadata.usesOf policy method := by
  have resolvable : (allocate {} metadata).2.catalog.resolvable policy = metadata.resolves policy :=
    funext (allocated_resolvable policy)
  unfold ownUses Metadata.usesOf
  rw [ownOperands_eq, resolvable, plain]
  cases method.body with
  | none => simp [MethodDefinition.signatureTypes]
  | some body =>
      simp [MethodDefinition.signatureTypes, MethodBody.usedTypes, typeOperands_eq,
        methodOperands_eq]

end Allocated

/-! ## One method -/

/-- A member gets dependencies at the end of its list, which a later catalog reads as `uses`. -/
def Appends (later : Catalog) (id : MemberId) (old new : Catalog) (uses : List NamedDependency) :
    Prop :=
  ∃ added, recordedDependencies new id = recordedDependencies old id ++ added ∧
    later.Reads id added uses

theorem Appends.trans {later first second third : Catalog} {id : MemberId}
    {uses others : List NamedDependency} (before : Appends later id first second uses)
    (after : Appends later id second third others) :
    Appends later id first third (uses ++ others) := by
  obtain ⟨added, recorded, reads⟩ := before
  obtain ⟨addedToo, recordedToo, readsToo⟩ := after
  exact ⟨added ++ addedToo, by rw [recordedToo, recorded, List.append_assoc], reads.append readsToo⟩

structure Ordinary (catalog : Catalog) (id : MemberId) : Prop where
  isMethod : ∃ member, catalog.member? id = some member ∧ member.isMethod
  unlinked : ¬catalog.isAccessor id

private theorem Ordinary.receiver_ne {catalog : Catalog} {id : MemberId}
    (ordinary : Ordinary catalog id)
    {method : MemberId} (other : method ≠ id) (property : MemberId) (form : MethodForm) :
    receiver catalog property method form ≠ id := by
  unfold receiver
  cases links : catalog.linksOf? property with
  | none => simpa using other
  | some links' =>
      have notLinked : links'.getter ≠ some id ∧ links'.setter ≠ some id :=
        not_or.mp fun linked => ordinary.unlinked <| by
          obtain ⟨member, found, isProperty⟩ := linksOf?_eq_some_iff.mp links
          exact isAccessor_iff.mpr ⟨property, member, links', found, isProperty, linked⟩
      simp only [Option.getD_some]
      split
      · cases getter : links'.getter with
        | none => simpa using other
        | some accessor => simpa [getter] using notLinked.1
      · cases setter : links'.setter with
        | none => simpa using other
        | some accessor => simpa [setter] using notLinked.2

theorem extractMethod_appends_own {options : Options} {on : TypeId} {analysis : Analysis}
    (formed : analysis.catalog.WellFormed) (defined : analysis.catalog.Defined on)
    {method : MethodDefinition} {id : MemberId}
    (entered : analysis.catalog.methodNamed? on method.fullName = some id)
    (plain : method.isAccessor = false) {statistics : Statistics}
    (succeeded : (analysis.extractMethod options on method).1 = .ok statistics) {later : Catalog}
    (laterFormed : later.WellFormed)
    (extended : (analysis.extractMethod options on method).2.catalog.Extends later) :
    Appends later id analysis.catalog (analysis.extractMethod options on method).2.catalog
      (ownUses analysis.catalog options.callPolicy method) := by
  obtain ⟨_, member, found, isMethod, _⟩ := methodNamed?_eq_some_iff.mp entered
  simp only [Analysis.extractMethod, entered] at succeeded extended ⊢
  obtain ⟨used, own, _, typing, recorded, _, final, reads⟩ :=
    extractKnownMethod_opened formed succeeded
  obtain ⟨now, there, memberExtended⟩ := typing.extends.member? found
  have formedUsed := typing.wellFormed formed
  have calling : Grows options.callPolicy used.catalog
      (used.methodCalls options on id method).2.catalog :=
    methodCalls_grows formedUsed.sound on id method
  have kept : recordedDependencies (used.methodCalls options on id method).2.catalog id =
      recordedDependencies used.catalog id := by
    refine methodCalls_bystander formedUsed (typing.defined defined) there
      (memberExtended.isProperty.trans (Member.isProperty_of_isMethod isMethod)) ?_
    intro property tied
    rw [tied?_of_not_accessor _ plain] at tied
    cases tied
  rw [final] at extended ⊢
  refine ⟨own, ?_, reads laterFormed ((extends_addDependencies id own).trans extended)⟩
  rw [recordedDependencies_addDependencies (calling.extends.hasMember (hasMember_of_member? there)),
    kept, recorded, if_pos rfl]

section Runs

variable {options : Options} {start later : Catalog} {id : MemberId}

def usesFrom (start : Catalog) (policy : CallPolicy) (id : MemberId) (on : TypeId)
    (methods : List MethodDefinition) : List NamedDependency :=
  (methods.filter (start.methodNamed? on ·.fullName = some id)).flatMap (ownUses start policy)

variable (formed : start.WellFormed) (ordinary : Ordinary start id)
include formed ordinary

private theorem extractMethod_bystander {on : TypeId} (defined : start.Defined on)
    {analysis : Analysis}
    (grown : Grows options.callPolicy start analysis.catalog) {method : MethodDefinition}
    (other : start.methodNamed? on method.fullName ≠ some id) {statistics : Statistics}
    (succeeded : (analysis.extractMethod options on method).1 = .ok statistics) :
    recordedDependencies (analysis.extractMethod options on method).2.catalog id =
      recordedDependencies analysis.catalog id := by
  obtain ⟨member, found, isMethod⟩ := ordinary.isMethod
  unfold Analysis.extractMethod at succeeded ⊢
  cases entered : analysis.catalog.methodNamed? on method.fullName with
  | none => rfl
  | some entry =>
      have different : entry ≠ id := by
        rintro rfl
        rw [grown.methodNamed? formed (.inl defined)] at entered
        exact other entered
      obtain ⟨_, owner, ownerFound, _⟩ := methodNamed?_eq_some_iff.mp entered
      simp only [entered] at succeeded ⊢
      obtain ⟨used, own, _, typing, recorded, _, final, _⟩ :=
        extractKnownMethod_opened (grown.wellFormed formed) succeeded
      have grownUsed : Grows options.callPolicy start used.catalog := grown.trans typing
      have formedUsed := grownUsed.wellFormed formed
      have calling : Grows options.callPolicy used.catalog
          (used.methodCalls options on entry method).2.catalog :=
        methodCalls_grows formedUsed.sound on entry method
      have known := (Grows.extends (typing.trans calling)).hasMember
        (hasMember_of_member? ownerFound)
      obtain ⟨now, there, extended⟩ := grownUsed.extends.member? found
      rw [final, recordedDependencies_addDependencies known, if_neg different, List.append_nil,
        ← recorded]
      refine methodCalls_bystander formedUsed (grownUsed.defined defined) there
        (extended.isProperty.trans (Member.isProperty_of_isMethod isMethod)) ?_
      intro property tied
      rw [grownUsed.tied? formed.sound defined] at tied
      obtain ⟨_, propertyFound, _⟩ := tied?_declared formed.sound tied
      rw [grownUsed.receiver propertyFound]
      exact ordinary.receiver_ne different property method.form

variable (laterFormed : later.WellFormed)
include laterFormed

private theorem extractMethod_appends {on : TypeId} (defined : start.Defined on)
    {analysis : Analysis}
    (grown : Grows options.callPolicy start analysis.catalog) {method : MethodDefinition}
    {statistics : Statistics}
    (succeeded : (analysis.extractMethod options on method).1 = .ok statistics)
    (extended : (analysis.extractMethod options on method).2.catalog.Extends later)
    (plain : start.methodNamed? on method.fullName = some id → method.isAccessor = false) :
    Appends later id analysis.catalog (analysis.extractMethod options on method).2.catalog
      (usesFrom start options.callPolicy id on [method]) := by
  unfold usesFrom
  by_cases own : start.methodNamed? on method.fullName = some id
  · have entered : analysis.catalog.methodNamed? on method.fullName = some id := by
      rw [grown.methodNamed? formed (.inl defined), own]
    have appends := extractMethod_appends_own (grown.wellFormed formed) (grown.defined defined)
      entered (plain own) succeeded laterFormed extended
    simpa [own, ownUses_grows grown formed] using appends
  · refine ⟨[], ?_, by simpa [own] using Reads.nil⟩
    rw [List.append_nil]
    exact extractMethod_bystander formed ordinary defined grown own succeeded

theorem extractMethods_appends {on : TypeId} (defined : start.Defined on) {analysis : Analysis}
    (grown : Grows options.callPolicy start analysis.catalog)
    {methods : List MethodDefinition} {statistics : Statistics}
    (succeeded : (analysis.extractMethods options on methods).1 = .ok statistics)
    (extended : (analysis.afterMethods options on methods).Extends later)
    (plain : ∀ method ∈ methods, start.methodNamed? on method.fullName = some id →
      method.isAccessor = false) :
    Appends later id analysis.catalog (analysis.afterMethods options on methods)
      (usesFrom start options.callPolicy id on methods) := by
  induction methods generalizing analysis statistics with
  | nil => exact ⟨[], (List.append_nil _).symm, .nil⟩
  | cons method rest ih =>
      obtain ⟨first, others, ok, okRest, _⟩ := extractMethods_ok succeeded
      have sound := grown.sound formed.sound
      have step : Grows options.callPolicy analysis.catalog
          (analysis.extractMethod options on method).2.catalog := extractMethod_grows sound on method
      have further : Grows options.callPolicy (analysis.extractMethod options on method).2.catalog
          ((analysis.extractMethod options on method).2.afterMethods options on rest) :=
        extractMethods_grows (step.sound sound) on rest
      rw [extractMethods_cons ok] at extended ⊢
      have here := extractMethod_appends formed ordinary laterFormed defined grown ok
        (further.extends.trans extended) (plain method (by simp))
      have there := ih (grown.trans step) okRest extended
        fun other listed => plain other (List.mem_cons_of_mem _ listed)
      have split : usesFrom start options.callPolicy id on (method :: rest) =
          usesFrom start options.callPolicy id on [method] ++
            usesFrom start options.callPolicy id on rest := by
        simp only [usesFrom, ← List.flatMap_append, ← List.filter_append, List.singleton_append]
      rw [split]
      exact here.trans there

private theorem extractTypes_appends {loaded : List LoadedType}
    (defined : ∀ one ∈ loaded, start.Defined one.1)
    {analysis : Analysis} (grown : Grows options.callPolicy start analysis.catalog)
    {statistics : Statistics}
    (succeeded : (analysis.extractTypes options loaded).1 = .ok statistics)
    (extended : (analysis.extractTypes options loaded).2.catalog.Extends later)
    (plain : ∀ one ∈ loaded, ∀ method ∈ one.2.methods,
      start.methodNamed? one.1 method.fullName = some id → method.isAccessor = false) :
    Appends later id analysis.catalog (analysis.extractTypes options loaded).2.catalog
      (loaded.flatMap fun one => usesFrom start options.callPolicy id one.1 one.2.methods) := by
  induction loaded generalizing analysis statistics with
  | nil => exact ⟨[], (List.append_nil _).symm, .nil⟩
  | cons one rest ih =>
      obtain ⟨_, _, ok, okRest, _, final⟩ := extractTypes_ok succeeded
      have after := (analysis.extractType_eq options one.1 one.2).2
      rw [final] at extended ⊢
      have sound := grown.sound formed.sound
      have step : Grows options.callPolicy analysis.catalog
          (analysis.extractType options one.1 one.2).2.catalog :=
        extractType_grows sound one.1 one.2
      have further : Grows options.callPolicy (analysis.extractType options one.1 one.2).2.catalog
          ((analysis.extractType options one.1 one.2).2.extractTypes options rest).2.catalog :=
        extractTypes_grows (step.sound sound) rest
      have here := extractMethods_appends formed ordinary laterFormed (defined one (by simp)) grown ok
        (after ▸ further.extends.trans extended) (plain one (by simp))
      rw [← after] at here
      have there := ih (fun other listed => defined other (List.mem_cons_of_mem _ listed))
        (grown.trans step) okRest extended
        fun other listed => plain other (List.mem_cons_of_mem _ listed)
      exact here.trans there

end Runs

/-! ## The whole analysis -/

private theorem recordedDependencies_linkBackwards (catalog : Catalog) :
    recordedDependencies catalog.linkBackwards.2 = recordedDependencies catalog :=
  linkBackwards_induction
    (motive := fun later => recordedDependencies later = recordedDependencies catalog)
    (fun id dependency before => .trans (@recordedDependencies_updateMember _
      (fun member => { member with backwards := member.backwards.push dependency }) (fun _ => rfl)
      id) before)
    (fun _ before => before) rfl

/-- An analysis succeeds and passes a check, if evaluating both at once says so. -/
theorem build_passes {options : Options} {metadata : Metadata} (check : Architecture → Bool)
    (passes : (Architecture.build options metadata).1.toOption.any check) :
    ∃ architecture, (Architecture.build options metadata).1 = .ok architecture ∧
      check architecture := by
  cases built : (Architecture.build options metadata).1 with
  | error error => rw [built] at passes; cases passes
  | ok architecture =>
      rw [built] at passes
      exact ⟨architecture, rfl, passes⟩

/-- Of what extraction recorded for members, turning dependencies around changes nothing. -/
theorem build_ok {options : Options} {metadata : Metadata} {architecture : Architecture}
    (built : (Architecture.build options metadata).1 = .ok architecture) :
    let extracted := (allocate {} metadata).2.extractTypes options (allocate {} metadata).1
    extracted.1 = .ok architecture.statistics ∧ extracted.2.catalog.Updated architecture.catalog ∧
      recordedDependencies architecture.catalog = recordedDependencies extracted.2.catalog := by
  intro extracted
  rw [build_eq] at built
  cases succeeded : extracted.1 with
  | error error => rw [succeeded] at built; cases built
  | ok statistics =>
      rw [succeeded] at built
      cases built
      refine ⟨rfl, ?_⟩
      dsimp only
      split
      · exact ⟨updated_linkBackwards, recordedDependencies_linkBackwards _⟩
      · exact ⟨.refl _, rfl⟩

theorem allocated_recorded {metadata : Metadata} {id : MemberId} {member : Member}
    (found : (allocate {} metadata).2.catalog.member? id = some member) (isMethod : member.isMethod) :
    recordedDependencies (allocate {} metadata).2.catalog id = [] := by
  obtain ⟨definition, _, _, isMatch⟩ := allocated_member metadata found
  have none : member.dependencies.size = 0 := by
    rw [isMatch.count, MemberDefinition.initialCount_eq, ← isMatch.isMethod, isMethod, if_pos rfl]
  rw [recordedDependencies, found, Option.elim_some, Array.toList_eq_nil_iff]
  exact Array.eq_empty_of_size_eq_zero none

section Declared

variable {metadata : Metadata} {id : MemberId} {member : Member} {typeName : String}
  (found : (allocate {} metadata).2.catalog.member? id = some member) (isMethod : member.isMethod)
  (names : (allocate {} metadata).2.catalog.Names typeName member.declaringType)
include found isMethod names

private theorem methodNamed?_loaded {one : LoadedType} (there : one ∈ (allocate {} metadata).1)
    (name : String) :
    (allocate {} metadata).2.catalog.methodNamed? one.1 name = some id ↔
      one.2.fullName = typeName ∧ name = member.fullName := by
  have formed := allocated_wellFormed metadata
  have sameType := formed.typeNamed?_inj (allocated_names metadata one there).1 names.1
  rw [methodNamed?_eq_some_iff, formed.memberNamed?_iff, ← sameType]
  constructor
  · rintro ⟨⟨_, first, rfl⟩, _, second, _, declared⟩
    rw [found] at first second
    cases first
    cases second
    exact ⟨declared.symm, rfl⟩
  · rintro ⟨declared, rfl⟩
    exact ⟨⟨member, found, rfl⟩, member, found, isMethod, declared.symm⟩

theorem allocated_methodDefinitions :
    ((allocate {} metadata).1.flatMap fun one => one.2.methods.filter
      ((allocate {} metadata).2.catalog.methodNamed? one.1 ·.fullName = some id)) =
      metadata.methodDefinitions typeName member.fullName := by
  calc _ = (allocate {} metadata).1.flatMap fun one =>
        if one.2.fullName = typeName then
          one.2.methods.filter (·.fullName = member.fullName) else [] := by
        refine List.flatMap_congr fun one there => ?_
        split
        · next same => simp [methodNamed?_loaded found isMethod names there, same]
        · next different => simp [methodNamed?_loaded found isMethod names there, different]
    _ = ((firstOf (·.fullName) metadata.definitions).filter (·.fullName = typeName)).flatMap
        fun definition => definition.methods.filter (·.fullName = member.fullName) := by
        rw [← allocated_loaded, flatMap_filter, List.flatMap_map]
        simp only [decide_eq_true_eq]
    _ = _ := by
        rw [filter_firstOf]
        unfold Metadata.methodDefinitions
        cases metadata.definitions.find? (·.fullName = typeName) with
        | none => rfl
        | some definition => exact List.flatMap_singleton ..

theorem extracted_reads {options : Options}
    (plain : ∀ method ∈ metadata.methodDefinitions typeName member.fullName,
      method.isAccessor = false)
    (unlinked : ¬(allocate {} metadata).2.catalog.isAccessor id)
    {statistics : Statistics}
    (succeeded : ((allocate {} metadata).2.extractTypes options (allocate {} metadata).1).1 =
      .ok statistics) :
    let extracted := ((allocate {} metadata).2.extractTypes options (allocate {} metadata).1).2
    extracted.catalog.Reads id (recordedDependencies extracted.catalog id)
      ((metadata.methodDefinitions typeName member.fullName).flatMap
        (metadata.usesOf options.callPolicy)) := by
  intro extracted
  have formed := allocated_wellFormed metadata
  have grown : Grows options.callPolicy (allocate {} metadata).2.catalog extracted.catalog :=
    extractTypes_grows formed.sound _
  have definitions := allocated_methodDefinitions found isMethod names
  have plainLoaded : ∀ one ∈ (allocate {} metadata).1, ∀ method ∈ one.2.methods,
      (allocate {} metadata).2.catalog.methodNamed? one.1 method.fullName = some id →
      method.isAccessor = false := by
    intro one there method listed named
    refine plain method (definitions ▸ List.mem_flatMap.mpr ⟨one, there, ?_⟩)
    exact List.mem_filter.mpr ⟨listed, decide_eq_true named⟩
  obtain ⟨added, recorded, reads⟩ := extractTypes_appends formed
    ⟨⟨member, found, isMethod⟩, unlinked⟩ (grown.wellFormed formed)
    (fun one there => (allocated_names metadata one there).2) .refl succeeded (.refl _) plainLoaded
  have uses : ((allocate {} metadata).1.flatMap fun one =>
      usesFrom (allocate {} metadata).2.catalog options.callPolicy id one.1 one.2.methods) =
      (metadata.methodDefinitions typeName member.fullName).flatMap
        (metadata.usesOf options.callPolicy) := by
    unfold usesFrom
    rw [← List.flatMap_assoc, definitions]
    exact List.flatMap_congr fun method there => allocated_ownUses _ (plain method there)
  rw [recorded, allocated_recorded found isMethod, List.nil_append, ← uses]
  exact reads

end Declared

/-- What an analysis records for a method that is no accessor and that no property is linked to, is
what its definitions declare, one after the other. -/
theorem dependencies_as_declared {options : Options} {metadata : Metadata}
    {architecture : Architecture}
    (built : (Architecture.build options metadata).1 = .ok architecture) {id : MemberId}
    {member : Member} (found : architecture.catalog.member? id = some member)
    (isMethod : member.isMethod) (notStub : member.isStub = false) {entry : TypeEntry}
    (declared : architecture.catalog.type? member.declaringType = some entry)
    (plain : ∀ method ∈ metadata.methodDefinitions entry.fullName member.fullName,
      method.isGetter = false ∧ method.isSetter = false)
    (unlinked : ¬architecture.catalog.isAccessor id) :
    architecture.catalog.Reads id member.dependencies.toList
      ((metadata.methodDefinitions entry.fullName member.fullName).flatMap
        (metadata.usesOf (if options.stubExternalCalls then .stubExternal else .existingOnly))) := by
  obtain ⟨ok, updated, recorded⟩ := build_ok built
  replace plain : ∀ method ∈ metadata.methodDefinitions entry.fullName member.fullName,
      method.isAccessor = false := fun method there => Bool.or_eq_false_iff.mpr (plain method there)
  have formed := allocated_wellFormed metadata
  have grown : Grows options.callPolicy (allocate {} metadata).2.catalog
      ((allocate {} metadata).2.extractTypes options (allocate {} metadata).1).2.catalog :=
    extractTypes_grows formed.sound _
  obtain ⟨between, betweenFound, laterExtended⟩ := updated.member?_before found
  rcases grown.member?_before betweenFound with ⟨first, firstFound, extended⟩ | added
  · have whole := extended.trans laterExtended
    obtain ⟨definition, _, names, _⟩ := allocated_member metadata firstFound
    -- The name of the declaring type is the same from the start.
    have typeName : definition.1 = entry.fullName := by
      obtain ⟨there, thereFound, fullName⟩ :=
        (grown.wellFormed formed).typeNamed?_iff.mp (grown.extends.typeNamed? names.1)
      obtain ⟨before, beforeFound, same⟩ := updated.type?_before declared
      rw [whole.declaringType, thereFound] at beforeFound
      cases beforeFound
      rw [same.fullName, fullName]
    have startUnlinked : ¬(allocate {} metadata).2.catalog.isAccessor id := by
      refine fun linked => unlinked (isAccessor_later (fun there => ?_) linked)
      obtain ⟨later, laterFound, laterOn⟩ := grown.extends.member? there
      obtain ⟨last, lastFound, lastOn⟩ := updated.member? laterFound
      exact ⟨last, lastFound, laterOn.trans lastOn⟩
    rw [typeName] at names
    rw [whole.fullName] at plain ⊢
    have reads := extracted_reads firstFound (whole.isMethod ▸ isMethod) names plain startUnlinked ok
    have same : recordedDependencies architecture.catalog id = member.dependencies.toList := by
      rw [recordedDependencies, found]
      rfl
    rw [← same, recorded]
    exact ⟨by rw [funext updated.named?]; exact reads.named, reads.origins⟩
  · have isStub := added.isStub
    rw [← laterExtended.isStub, notStub] at isStub
    cases isStub

/-- Metadata that defines a type twice, and a generic method twice in the first definition. Of the
calls, one leads out of the metadata and one leads nowhere; between them a type is tested for. -/
def ledgerMetadata : Metadata :=
  let ledger : TypeReference := { fullName := "Shop.Ledger" }
  let money : TypeReference := { fullName := "Shop.Money" }
  let console : TypeReference := { fullName := "Sys.Console" }
  let void : TypeReference := { fullName := "Sys.Void" }
  let call (method : MethodReference) : Instruction :=
    { opcode := .call, operand := some (.method method) }
  let post (instructions : List Instruction) : MethodDefinition :=
    { MethodDefinition.ofSignature ledger "Post" void [{ fullName := "Shop.Entry" }] with
      genericParameters := [{ fullName := "T" }]
      body := some { localVariableTypes := [money], instructions } }
  let first : TypeDefinition :=
    { fullName := "Shop.Ledger"
      methods :=
        [post
            [call (.ofSignature ledger "Close" void []),
              { opcode := .isinst, operand := some (.type { fullName := "Shop.Refund" }) },
              call (.ofSignature console "WriteLine" void [])],
          post [call (post []).reference]] }
  let second : TypeDefinition :=
    { fullName := "Shop.Ledger", methods := [post [call (.ofSignature console "Beep" void [])]] }
  { assemblies := [{ name := "shop", types := [first] }, { name := "old", types := [second] }] }

theorem dependencies_as_declared_ledger :
    ∃ architecture member entry,
      (Architecture.build {} ledgerMetadata).1 = .ok architecture ∧
      architecture.catalog.member? ⟨0⟩ = some member ∧ member.isMethod ∧ member.isStub = false ∧
      architecture.catalog.type? member.declaringType = some entry ∧
      (∀ method ∈ ledgerMetadata.methodDefinitions entry.fullName member.fullName,
        method.isGetter = false ∧ method.isSetter = false) ∧
      ¬architecture.catalog.isAccessor ⟨0⟩ ∧
      architecture.catalog.Reads ⟨0⟩ member.dependencies.toList
        [⟨.typeUse .signature, "Sys.Void"⟩, ⟨.typeUse .signature, "Shop.Entry"⟩,
          ⟨.typeUse .signature, "T"⟩, ⟨.typeUse .body, "Shop.Money"⟩,
          ⟨.typeUse .body, "Shop.Refund"⟩, ⟨.call, "Sys.Console::WriteLine()"⟩,
          ⟨.typeUse .signature, "Sys.Void"⟩, ⟨.typeUse .signature, "Shop.Entry"⟩,
          ⟨.typeUse .signature, "T"⟩, ⟨.typeUse .body, "Shop.Money"⟩,
          ⟨.call, "Shop.Ledger::Post(Shop.Entry)"⟩] := by
  have evaluated : (match (Architecture.build {} ledgerMetadata).1 with
      | .ok architecture => (architecture.catalog.member? ⟨0⟩).any fun member =>
          member.isMethod && !member.isStub && member.fullName = "Shop.Ledger::Post(Shop.Entry)" &&
            !architecture.catalog.isAccessor ⟨0⟩ &&
            (architecture.catalog.type? member.declaringType).any (·.fullName = "Shop.Ledger")
      | .error _ => false) = true := by decide +kernel
  cases built : (Architecture.build {} ledgerMetadata).1 with
  | error error => rw [built] at evaluated; cases evaluated
  | ok architecture =>
      rw [built] at evaluated
      obtain ⟨member, found, facts⟩ := (Option.any_eq_true ..).mp evaluated
      simp only [Bool.and_eq_true, Bool.not_eq_true', decide_eq_true_eq] at facts
      obtain ⟨⟨⟨⟨isMethod, notStub⟩, fullName⟩, unlinked⟩, typed⟩ := facts
      obtain ⟨entry, declared, typeName⟩ := (Option.any_eq_true ..).mp typed
      have plain : ∀ method ∈ ledgerMetadata.methodDefinitions entry.fullName member.fullName,
          method.isGetter = false ∧ method.isSetter = false := by
        rw [fullName, of_decide_eq_true typeName]
        decide +kernel
      have reads := dependencies_as_declared built found isMethod notStub declared plain
        (by simp [unlinked])
      rw [fullName, of_decide_eq_true typeName] at reads
      exact ⟨architecture, member, entry, rfl, found, isMethod, notStub, declared, plain,
        by simp [unlinked], reads⟩

end Analysis

end MemberGraph
