import MemberGraph.Analysis.Build
import MemberGraph.Proofs.Sound
import Mathlib.Data.List.ReduceOption
import Mathlib.Logic.Relation

/-!
How an extraction changes a catalog. Every operation that extraction is made of comes down to four
kinds of elementary growth: a stub type, a stub method on a stub type, dependencies at the end of a
list, and a backing link between members of one type. What holds of these steps holds of every run.
-/

set_option autoImplicit false

namespace MemberGraph

namespace Catalog

/-! ## Elementary growth -/

/-- A dependency that an extraction may record: both ends are there, or it stands at some member
already. -/
def Offers (catalog : Catalog) (dependency : Dependency) : Prop :=
  catalog.Knows dependency ∨
    ∃ id member, catalog.member? id = some member ∧ dependency ∈ member.dependencies

/-- One elementary change of a catalog by an extraction under a call policy. -/
inductive Growth (policy : CallPolicy) : Catalog → Catalog → Prop where
  | stubType {catalog : Catalog} {reference : TypeReference}
      (fresh : catalog.typeNamed? reference.fullName = none) :
      Growth policy catalog (catalog.addStubType reference).2
  | stubMethod {catalog : Catalog} {on returnType : TypeId} {parameters : List TypeId}
      {reference : MethodReference} (wanted : policy = .stubExternal)
      (stub : catalog.isStubType on) (fresh : catalog.memberNamed? reference.fullName = none)
      (returnKnown : catalog.hasType returnType)
      (parametersKnown : ∀ id ∈ parameters, catalog.hasType id) :
      Growth policy catalog (catalog.addMember reference.fullName
        (Analysis.stubMethod reference on returnType parameters)).2
  | dependencies {catalog : Catalog} {id : MemberId} {dependencies : List Dependency}
      (offered : ∀ dependency ∈ dependencies, catalog.Offers dependency) :
      Growth policy catalog (catalog.addDependencies id dependencies)
  | link {catalog : Catalog} {property field : MemberId} {left right : Member}
      (propertyFound : catalog.member? property = some left)
      (fieldFound : catalog.member? field = some right)
      (sameType : left.declaringType = right.declaringType) :
      Growth policy catalog (catalog.linkBacking property field).2

abbrev Grows (policy : CallPolicy) : Catalog → Catalog → Prop :=
  Relation.ReflTransGen (Growth policy)

private theorem hasType_of_isStubType {catalog : Catalog} {id : TypeId}
    (stub : catalog.isStubType id) :
    catalog.hasType id := by
  obtain ⟨entry, found, _⟩ := isStubType_iff.mp stub
  exact hasType_of_type? found

theorem Offers.extended {old new : Catalog} (extended : old.Extends new) {dependency : Dependency}
    (offered : old.Offers dependency) : new.Offers dependency := by
  rcases offered with known | ⟨id, member, found, recorded⟩
  · exact .inl (known.covered extended.covers)
  · obtain ⟨later, there, memberExtended⟩ := extended.member? found
    refine .inr ⟨id, later, there, ?_⟩
    exact Array.mem_toList_iff.mp
      (memberExtended.dependencies.subset (Array.mem_toList_iff.mpr recorded))

theorem stubMethod_insertable {catalog : Catalog} {on returnType : TypeId}
    {parameters : List TypeId} {reference : MethodReference} (declared : catalog.hasType on)
    (returnKnown : catalog.hasType returnType)
    (parametersKnown : ∀ id ∈ parameters, catalog.hasType id) :
    catalog.Insertable reference.fullName
      (Analysis.stubMethod reference on returnType parameters) := by
  refine ⟨rfl, rfl, ?_, ?_⟩
  · constructor <;> simp [Analysis.stubMethod, KnowsRole, declared, returnKnown]
    exact parametersKnown
  · intro links isProperty
    cases isProperty

section Growth

variable {policy : CallPolicy} {old new : Catalog}

theorem Growth.extends (growth : Growth policy old new) : old.Extends new := by
  cases growth with
  | stubType fresh => exact extends_addType _ _ _ fresh
  | stubMethod wanted stub fresh returnKnown parametersKnown => exact extends_addMember _ _
  | dependencies offered => exact extends_addDependencies _ _
  | link propertyFound fieldFound sameType => exact extends_linkBacking _ _

theorem Growth.sound (growth : Growth policy old new) (sound : old.Sound) : new.Sound := by
  cases growth with
  | stubType fresh => exact sound.addType
  | stubMethod wanted stub fresh returnKnown parametersKnown => exact sound.addMember rfl
  | dependencies offered => exact sound.of_updated (updated_addDependencies _ _)
  | link propertyFound fieldFound sameType => exact sound.of_updated (updated_linkBacking _ _)

theorem Growth.wellFormed (growth : Growth policy old new) (formed : old.WellFormed) :
    new.WellFormed := by
  cases growth with
  | stubType fresh => exact formed.addType fresh
  | stubMethod wanted stub fresh returnKnown parametersKnown =>
      exact formed.addMember fun _ =>
        stubMethod_insertable (hasType_of_isStubType stub) returnKnown parametersKnown
  | dependencies offered =>
      refine formed.addDependencies fun dependency there => ?_
      rcases offered dependency there with known | ⟨id, member, found, recorded⟩
      · exact known
      · exact (formed.knowsMember found).dependencies dependency recorded
  | link propertyFound fieldFound sameType => exact formed.linkBacking _ _

theorem Grows.extends (grows : Grows policy old new) : old.Extends new := by
  induction grows with
  | refl => exact .refl _
  | tail _ growth extended => exact extended.trans growth.extends

theorem Grows.sound (grows : Grows policy old new) (sound : old.Sound) : new.Sound := by
  induction grows with
  | refl => exact sound
  | tail _ growth before => exact growth.sound before

theorem Grows.wellFormed (grows : Grows policy old new) (formed : old.WellFormed) :
    new.WellFormed := by
  induction grows with
  | refl => exact formed
  | tail _ growth before => exact growth.wellFormed before

end Growth

end Catalog

/-! ## Operations of an analysis -/

namespace Analysis

open Catalog

variable {analysis : Analysis} {policy : CallPolicy}

@[simp] theorem note_catalog (event : Event) : (analysis.note event).catalog = analysis.catalog := rfl

@[simp] theorem updateCatalog_catalog (change : Catalog → Catalog) :
    (analysis.updateCatalog change).catalog = change analysis.catalog := rfl

theorem typeFor_of_known {reference : TypeReference} {id : TypeId}
    (known : analysis.catalog.typeNamed? reference.fullName = some id) :
    analysis.typeFor reference = (id, analysis) := by
  simp [typeFor, known]

theorem typeFor_of_fresh {reference : TypeReference}
    (fresh : analysis.catalog.typeNamed? reference.fullName = none) :
    (analysis.typeFor reference).1 = ⟨analysis.catalog.types.size⟩ ∧
      (analysis.typeFor reference).2.catalog = (analysis.catalog.addStubType reference).2 := by
  simp only [typeFor, fresh, note_catalog, addStubType, addType_fst, and_self]

theorem typeFor_grows (reference : TypeReference) :
    Grows policy analysis.catalog (analysis.typeFor reference).2.catalog := by
  cases known : analysis.catalog.typeNamed? reference.fullName with
  | some id => rw [typeFor_of_known known]
  | none =>
      rw [(typeFor_of_fresh known).2]
      exact .single (.stubType known)

theorem typeFor_named (reference : TypeReference) :
    (analysis.typeFor reference).2.catalog.typeNamed? reference.fullName =
      some (analysis.typeFor reference).1 := by
  cases known : analysis.catalog.typeNamed? reference.fullName with
  | some id => rw [typeFor_of_known known, known]
  | none =>
      obtain ⟨first, second⟩ := typeFor_of_fresh known
      rw [first, second, addStubType, typeNamed?_addType, if_pos rfl]

theorem typesFor_grows (references : List TypeReference) :
    Grows policy analysis.catalog (analysis.typesFor references).2.catalog := by
  induction references generalizing analysis with
  | nil => exact .refl
  | cons reference rest ih => exact (typeFor_grows reference).trans ih

theorem typesFor_named (references : List TypeReference) :
    (analysis.typesFor references).1.map some = references.map fun reference =>
      (analysis.typesFor references).2.catalog.typeNamed? reference.fullName := by
  induction references generalizing analysis with
  | nil => rfl
  | cons reference rest ih =>
      have grows : Grows .stubExternal (analysis.typeFor reference).2.catalog
          ((analysis.typeFor reference).2.typesFor rest).2.catalog := typesFor_grows rest
      have first := grows.extends.typeNamed? (typeFor_named reference)
      simp only [typesFor, List.map_cons, first, ih]

theorem typesFor_known (sound : analysis.catalog.Sound) (references : List TypeReference) :
    ∀ id ∈ (analysis.typesFor references).1,
      (analysis.typesFor references).2.catalog.hasType id := by
  intro id there
  have grown : Grows .stubExternal analysis.catalog (analysis.typesFor references).2.catalog :=
    typesFor_grows references
  have named := List.mem_map_of_mem (f := some) there
  rw [typesFor_named] at named
  obtain ⟨reference, _, named⟩ := List.mem_map.mp named
  exact (grown.sound sound).typeNamed? named

theorem typeFor_known (sound : analysis.catalog.Sound) (reference : TypeReference) :
    (analysis.typeFor reference).2.catalog.hasType (analysis.typeFor reference).1 := by
  have grown : Grows .stubExternal analysis.catalog (analysis.typeFor reference).2.catalog :=
    typeFor_grows reference
  exact (grown.sound sound).typeNamed? (typeFor_named reference)

theorem methodFor_of_missing {on : TypeId} {reference : MethodReference}
    (missing : analysis.catalog.methodNamed? on reference.fullName = none) :
    analysis.methodFor on reference =
      let withReturn := analysis.typeFor reference.returnType
      let withParameters := withReturn.2.typesFor reference.parameters
      let added := withParameters.2.catalog.addMember reference.fullName
        (stubMethod reference on withReturn.1 withParameters.1)
      (added.1, { withParameters.2.note (.stubMethodCreated reference.fullName) with
        catalog := added.2 }) := by
  simp only [methodFor, missing, note_catalog]

theorem methodFor_grows (sound : analysis.catalog.Sound) {on : TypeId}
    (wanted : policy = .stubExternal) (stub : analysis.catalog.isStubType on)
    (reference : MethodReference) :
    Grows policy analysis.catalog (analysis.methodFor on reference).2.catalog := by
  cases missing : analysis.catalog.methodNamed? on reference.fullName with
  | some id => simp only [methodFor, missing]; exact .refl
  | none =>
      rw [methodFor_of_missing missing]
      dsimp only
      have first : Grows policy analysis.catalog (analysis.typeFor reference.returnType).2.catalog :=
        typeFor_grows reference.returnType
      have second : Grows policy (analysis.typeFor reference.returnType).2.catalog
          ((analysis.typeFor reference.returnType).2.typesFor reference.parameters).2.catalog :=
        typesFor_grows reference.parameters
      refine (first.trans second).trans ?_
      cases fresh : ((analysis.typeFor reference.returnType).2.typesFor
          reference.parameters).2.catalog.memberNamed? reference.fullName with
      | some id => rw [addMember_of_known _ fresh]
      | none =>
          refine .single (.stubMethod wanted ?_ fresh ?_ ?_)
          · obtain ⟨entry, found, isStub⟩ := isStubType_iff.mp stub
            obtain ⟨later, there, extended⟩ := (Grows.extends (first.trans second)).type? found
            exact isStubType_iff.mpr ⟨later, there, extended.isStub ▸ isStub⟩
          · exact second.extends.hasType (typeFor_known sound reference.returnType)
          · exact typesFor_known (first.sound sound) reference.parameters

theorem methodFor_extends (on : TypeId) (reference : MethodReference) :
    analysis.catalog.Extends (analysis.methodFor on reference).2.catalog := by
  cases missing : analysis.catalog.methodNamed? on reference.fullName with
  | some id =>
      simp only [methodFor, missing]
      exact .refl _
  | none =>
      have returning : Grows .existingOnly analysis.catalog
          (analysis.typeFor reference.returnType).2.catalog := typeFor_grows _
      have giving : Grows .existingOnly (analysis.typeFor reference.returnType).2.catalog
          ((analysis.typeFor reference.returnType).2.typesFor reference.parameters).2.catalog :=
        typesFor_grows _
      rw [methodFor_of_missing missing]
      exact (Grows.extends (returning.trans giving)).trans (extends_addMember _ _)

theorem methodFor_named (on : TypeId) (reference : MethodReference) :
    (analysis.methodFor on reference).2.catalog.memberNamed? reference.fullName =
      some (analysis.methodFor on reference).1 := by
  cases missing : analysis.catalog.methodNamed? on reference.fullName with
  | some id =>
      simp only [methodFor, missing]
      exact (methodNamed?_eq_some_iff.mp missing).1
  | none =>
      rw [methodFor_of_missing missing]
      exact addMember_named _

/-- The three ways in which a call operand is resolved: to a method that its type declares, to a
stub, or not at all. -/
theorem resolve_cases (policy : CallPolicy) (reference : MethodReference) :
    let typed := analysis.typeFor reference.declaringType
    (∃ id, typed.2.catalog.methodNamed? typed.1 reference.fullName = some id ∧
      analysis.resolve policy reference = (some id, typed.2)) ∨
    (typed.2.catalog.methodNamed? typed.1 reference.fullName = none ∧
      (policy = .stubExternal ∧ typed.2.catalog.isStubType typed.1) ∧
      analysis.resolve policy reference = (some (typed.2.methodFor typed.1 reference).1,
        (typed.2.methodFor typed.1 reference).2)) ∨
    (typed.2.catalog.methodNamed? typed.1 reference.fullName = none ∧
      ¬(policy = .stubExternal ∧ typed.2.catalog.isStubType typed.1) ∧
      (analysis.resolve policy reference).1 = none ∧
      (analysis.resolve policy reference).2.catalog = typed.2.catalog) := by
  rcases typing : analysis.typeFor reference.declaringType with ⟨on, later⟩
  dsimp only
  cases found : later.catalog.methodNamed? on reference.fullName with
  | some id => exact .inl ⟨id, rfl, by simp only [resolve, typing, found]⟩
  | none =>
      by_cases wanted : policy = .stubExternal ∧ later.catalog.isStubType on
      · exact .inr (.inl ⟨rfl, wanted, by simp only [resolve, typing, found, if_pos wanted]⟩)
      · have skipped : analysis.resolve policy reference = (none, later.note
            (.callSkipped reference.fullName reference.declaringType.fullName)) := by
          simp only [resolve, typing, found, if_neg wanted]
        exact .inr (.inr ⟨rfl, wanted, by rw [skipped], by rw [skipped]; rfl⟩)

theorem resolve_grows (sound : analysis.catalog.Sound) (reference : MethodReference) :
    Grows policy analysis.catalog (analysis.resolve policy reference).2.catalog := by
  have first : Grows policy analysis.catalog
      (analysis.typeFor reference.declaringType).2.catalog := typeFor_grows reference.declaringType
  rcases resolve_cases policy reference with ⟨id, _, resolved⟩ | ⟨_, wanted, resolved⟩ |
    ⟨_, _, _, unchanged⟩
  · rw [resolved]
    exact first
  · rw [resolved]
    exact first.trans (methodFor_grows (first.sound sound) wanted.1 wanted.2 reference)
  · rw [unchanged]
    exact first

theorem resolve_named {reference : MethodReference} {id : MemberId}
    (resolved : (analysis.resolve policy reference).1 = some id) :
    (analysis.resolve policy reference).2.catalog.memberNamed? reference.fullName = some id := by
  rcases resolve_cases policy reference with ⟨other, found, equal⟩ | ⟨_, _, equal⟩ |
    ⟨_, _, unresolved, _⟩
  · rw [equal] at resolved ⊢
    cases resolved
    exact (methodNamed?_eq_some_iff.mp found).1
  · rw [equal] at resolved ⊢
    cases resolved
    exact methodFor_named _ reference
  · rw [unresolved] at resolved
    cases resolved

theorem resolveAll_grows (sound : analysis.catalog.Sound) (references : List MethodReference) :
    Grows policy analysis.catalog (analysis.resolveAll policy references).2.catalog := by
  induction references generalizing analysis with
  | nil => exact .refl
  | cons reference rest ih =>
      have first : Grows policy analysis.catalog (analysis.resolve policy reference).2.catalog :=
        resolve_grows sound reference
      exact first.trans (ih (first.sound sound))

private theorem resolveAll_known (sound : analysis.catalog.Sound)
    (references : List MethodReference)
    {id : MemberId} (there : some id ∈ (analysis.resolveAll policy references).1) :
    (analysis.resolveAll policy references).2.catalog.hasMember id := by
  induction references generalizing analysis with
  | nil => cases there
  | cons reference rest ih =>
      have first : Grows policy analysis.catalog (analysis.resolve policy reference).2.catalog :=
        resolve_grows sound reference
      have others : Grows policy (analysis.resolve policy reference).2.catalog
          ((analysis.resolve policy reference).2.resolveAll policy rest).2.catalog :=
        resolveAll_grows (first.sound sound) rest
      rcases List.mem_cons.mp there with found | there
      · exact others.extends.hasMember ((first.sound sound).memberNamed? (resolve_named found.symm))
      · exact ih (first.sound sound) there

/-! ## Properties and their storage -/

@[simp] theorem propertyByName_catalog (on : TypeId) (fullName candidate : String) :
    (analysis.propertyByName on fullName candidate).2.catalog = analysis.catalog := by
  unfold propertyByName
  split <;> rfl

@[simp] theorem propertyByEnding_catalog (on : TypeId) (fullName candidate : String) :
    (analysis.propertyByEnding on fullName candidate).2.catalog = analysis.catalog := by
  unfold propertyByEnding
  split <;> rfl

private theorem propertyByName_fst (on : TypeId) (fullName candidate : String) :
    (analysis.propertyByName on fullName candidate).1 =
      (analysis.catalog.propertyNamed on candidate).unique? := by
  unfold propertyByName
  split <;> next chosen => rw [chosen]; rfl

private theorem propertyByEnding_fst (on : TypeId) (fullName candidate : String) :
    (analysis.propertyByEnding on fullName candidate).1 =
      (analysis.catalog.propertyEnding on candidate).unique? := by
  unfold propertyByEnding
  split <;> next chosen => rw [chosen]; rfl

theorem propertyOf_eq (on : TypeId) (convention : Convention) (name fullName : String) :
    (analysis.propertyOf on convention name fullName).1 =
        analysis.catalog.implemented? on convention name fullName ∧
      (analysis.propertyOf on convention name fullName).2.catalog = analysis.catalog := by
  unfold propertyOf Catalog.implemented?
  cases convention.property? name with
  | none =>
      cases convention.property? (FullName.memberName fullName) with
      | none => exact ⟨rfl, rfl⟩
      | some ending => simp [propertyByEnding_fst]
  | some candidate =>
      have byName : (analysis.propertyByName on fullName candidate).1 =
        (analysis.catalog.propertyNamed on candidate).unique? := propertyByName_fst ..
      cases chosen : (analysis.propertyByName on fullName candidate).1 with
      | some property => simp [chosen, ← byName]
      | none =>
          cases convention.property? (FullName.memberName fullName) with
          | none => simp [chosen, ← byName]
          | some ending => simp [chosen, ← byName, propertyByEnding_fst]

theorem storageCandidate?_declared {catalog : Catalog} (sound : catalog.Sound) {on : TypeId}
    {property field : MemberId} {body : MethodBody}
    (found : storageCandidate? catalog on property body = some field) :
    ∃ member, catalog.member? field = some member ∧ member.isField ∧ member.declaringType = on := by
  obtain ⟨entry, _, chosen⟩ := Option.bind_eq_some_iff.mp found
  have usable := List.mem_of_getLast? chosen
  obtain ⟨operand, _, unique⟩ := List.mem_filterMap.mp (List.mem_filter.mp usable).1
  exact declaredField_of_unique? sound unique

theorem linkStorage_grows {catalog : Catalog} (sound : catalog.Sound) {on : TypeId}
    {property : MemberId} {member : Member} (found : catalog.member? property = some member)
    (declared : member.declaringType = on) (body : MethodBody) :
    Grows policy catalog (linkStorage catalog on property body) := by
  unfold linkStorage
  split
  · next field candidate =>
      obtain ⟨other, there, _, alsoDeclared⟩ := storageCandidate?_declared sound candidate
      exact .single (.link found there (declared.trans alsoDeclared.symm))
  · exact .refl

theorem mem_recordedDependencies {catalog : Catalog} {id : MemberId} {dependency : Dependency}
    (recorded : dependency ∈ recordedDependencies catalog id) :
    ∃ member, catalog.member? id = some member ∧ dependency ∈ member.dependencies := by
  unfold recordedDependencies at recorded
  cases found : catalog.member? id with
  | none => simp [found] at recorded
  | some member => exact ⟨member, rfl, by simpa [found] using recorded⟩

def withStorage (analysis : Analysis) (policy : CallPolicy) (on : TypeId) (property : MemberId)
    (body : MethodBody) : Catalog :=
  linkStorage (analysis.resolveAll policy (calledMethods body)).2.catalog on property body

/-- The accessor that gets the dependencies of a body: the one of its form that the property is
linked to, or else `method`. -/
def receiver (catalog : Catalog) (property method : MemberId) (form : MethodForm) : MemberId :=
  let links := (catalog.linksOf? property).getD {}
  (if form = .getter then links.getter else links.setter).getD method

def inherited (catalog : Catalog) (property : MemberId) : List Dependency :=
  (catalog.backingField? property).elim [] (recordedDependencies catalog)

def tiedDependencies (analysis : Analysis) (policy : CallPolicy) (on : TypeId) (property : MemberId)
    (body : MethodBody) : List Dependency :=
  callsTo property (analysis.resolveAll policy (calledMethods body)).1 ++
    inherited (analysis.withStorage policy on property body) property

/-- The two outcomes of tying an accessor to a property: both get the same dependencies, or the
accessor is not there and only the storage was linked. -/
theorem linkAccessor_cases (policy : CallPolicy) (on : TypeId) (property method : MemberId)
    (definition : MethodDefinition) (body : MethodBody) :
    let stored := analysis.withStorage policy on property body
    let accessor := receiver stored property method definition.form
    let dependencies := analysis.tiedDependencies policy on property body
    let outcome := analysis.linkAccessor policy on property method definition body
    (stored.hasMember accessor ∧
      outcome.1 = .ok (.linked property (stored.backingField? property) dependencies.length) ∧
      outcome.2.catalog =
        (stored.addDependencies accessor dependencies).addDependencies property dependencies) ∨
    (stored.hasMember accessor = false ∧ outcome.1 = .error (.unknownMember accessor) ∧
      outcome.2.catalog = stored) := by
  intro stored accessor dependencies outcome
  have field : ((stored.linksOf? property).getD {}).backingField = stored.backingField? property := by
    unfold backingField?
    cases stored.linksOf? property <;> rfl
  have opened : outcome = analysis.linkAccessor policy on property method definition body := rfl
  unfold linkAccessor at opened
  simp only [updateCatalog_catalog] at opened
  change outcome = if stored.hasMember accessor then _ else _ at opened
  cases known : stored.hasMember accessor with
  | true =>
      rw [known, if_pos rfl] at opened
      refine .inl ⟨rfl, ?_, ?_⟩
      · rw [opened]
        simp only [stored, withStorage] at field
        simp only [field]
        rfl
      · rw [opened]
        simp only [stored, withStorage] at field
        simp only [field]
        rfl
  | false =>
      rw [known, if_neg (by simp)] at opened
      exact .inr ⟨rfl, by rw [opened]; rfl, by rw [opened]; rfl⟩

theorem mem_callsTo {origin : MemberId} {targets : List (Option MemberId)} {dependency : Dependency}
    (there : dependency ∈ callsTo origin targets) :
    ∃ target, some target ∈ targets ∧ dependency = .call origin target := by
  obtain ⟨target, found, rfl⟩ := List.mem_map.mp there
  exact ⟨target, List.reduceOption_mem_iff.mp found, rfl⟩

private theorem tiedDependencies_offered (sound : analysis.catalog.Sound) {on : TypeId}
    {property : MemberId} {member : Member}
    (found : analysis.catalog.member? property = some member)
    (declared : member.declaringType = on) (body : MethodBody) :
    ∀ dependency ∈ analysis.tiedDependencies policy on property body,
      (analysis.withStorage policy on property body).Offers dependency := by
  intro dependency there
  have resolved : Grows policy analysis.catalog
      (analysis.resolveAll policy (calledMethods body)).2.catalog := resolveAll_grows sound _
  obtain ⟨later, found, extended⟩ := resolved.extends.member? found
  have linked : Grows policy (analysis.resolveAll policy (calledMethods body)).2.catalog
      (analysis.withStorage policy on property body) :=
    linkStorage_grows (resolved.sound sound) found (extended.declaringType.trans declared) body
  rcases List.mem_append.mp there with called | fromField
  · obtain ⟨target, resolvedTo, rfl⟩ := mem_callsTo called
    exact .inl ⟨linked.extends.hasMember (hasMember_of_member? found),
      linked.extends.hasMember (resolveAll_known sound _ resolvedTo)⟩
  · unfold inherited at fromField
    cases backing : (analysis.withStorage policy on property body).backingField? property with
    | none => simp [backing] at fromField
    | some field =>
        rw [backing] at fromField
        obtain ⟨owner, there, recorded⟩ := mem_recordedDependencies fromField
        exact .inr ⟨field, owner, there, recorded⟩

theorem withStorage_grows (sound : analysis.catalog.Sound) {on : TypeId} {property : MemberId}
    {member : Member} (found : analysis.catalog.member? property = some member)
    (declared : member.declaringType = on) (body : MethodBody) :
    Grows policy analysis.catalog (analysis.withStorage policy on property body) := by
  have resolved : Grows policy analysis.catalog
      (analysis.resolveAll policy (calledMethods body)).2.catalog := resolveAll_grows sound _
  obtain ⟨later, there, extended⟩ := resolved.extends.member? found
  exact resolved.trans
    (linkStorage_grows (resolved.sound sound) there (extended.declaringType.trans declared) body)

theorem linkAccessor_grows (sound : analysis.catalog.Sound) {on : TypeId} {property : MemberId}
    {member : Member} (found : analysis.catalog.member? property = some member)
    (declared : member.declaringType = on) (method : MemberId) (definition : MethodDefinition)
    (body : MethodBody) :
    Grows policy analysis.catalog
      (analysis.linkAccessor policy on property method definition body).2.catalog := by
  have stored : Grows policy analysis.catalog (analysis.withStorage policy on property body) :=
    withStorage_grows sound found declared body
  have offered : ∀ dependency ∈ analysis.tiedDependencies policy on property body,
      (analysis.withStorage policy on property body).Offers dependency :=
    tiedDependencies_offered sound found declared body
  rcases linkAccessor_cases policy on property method definition body with
    ⟨_, _, recorded⟩ | ⟨_, _, unchanged⟩
  · rw [recorded]
    refine (stored.tail (.dependencies offered)).tail (.dependencies ?_)
    intro dependency there
    exact (offered dependency there).extended (extends_addDependencies _ _)
  · rw [unchanged]
    exact stored

/-- Tying an accessor: it is tied to the property that the catalog gives for it, or nothing is
changed. -/
theorem tieAccessor_cases (policy : CallPolicy) (on : TypeId) (method : MemberId)
    (definition : MethodDefinition) :
    (∃ (property : MemberId) (body : MethodBody) (searched : Analysis),
      analysis.catalog.tied? on definition = some property ∧
      definition.body = some body ∧ searched.catalog = analysis.catalog ∧
      analysis.tieAccessor policy on method definition =
        searched.linkAccessor policy on property method definition body) ∨
    (analysis.catalog.tied? on definition = none ∧
      (analysis.tieAccessor policy on method definition).2.catalog = analysis.catalog ∧
      ((analysis.tieAccessor policy on method definition).1 = .ok .unlinked ∨
        (definition.form.convention? = none ∧
          (analysis.tieAccessor policy on method definition).1 =
            .error (.noConvention definition.form definition.fullName)))) := by
  unfold tieAccessor tied?
  cases known : definition.form.convention? with
  | none => exact .inr ⟨rfl, rfl, .inr ⟨rfl, rfl⟩⟩
  | some convention =>
      cases hasBody : definition.body with
      | none => exact .inr ⟨rfl, rfl, .inl rfl⟩
      | some body =>
          obtain ⟨answer, unchanged⟩ : (analysis.propertyOf on convention definition.name
              definition.fullName).1 = analysis.catalog.implemented? on convention definition.name
                definition.fullName ∧ _ :=
            propertyOf_eq on convention definition.name definition.fullName
          dsimp only
          rw [← answer]
          cases found : analysis.propertyOf on convention definition.name definition.fullName with
          | mk property searched =>
              rw [found] at unchanged
              cases property with
              | none => exact .inr ⟨rfl, unchanged, .inl rfl⟩
              | some property => exact .inl ⟨property, body, searched, rfl, rfl, unchanged, rfl⟩

theorem tied?_declared {catalog : Catalog} (sound : catalog.Sound) {on : TypeId}
    {definition : MethodDefinition} {property : MemberId}
    (tied : catalog.tied? on definition = some property) :
    ∃ member, catalog.member? property = some member ∧ member.isProperty ∧
      member.declaringType = on := by
  unfold tied? at tied
  split at tied
  · exact implemented?_declared sound tied
  · cases tied

theorem tieAccessor_grows (sound : analysis.catalog.Sound) (on : TypeId) (method : MemberId)
    (definition : MethodDefinition) :
    Grows policy analysis.catalog (analysis.tieAccessor policy on method definition).2.catalog := by
  rcases tieAccessor_cases policy on method definition with
    ⟨property, body, searched, tied, _, unchanged, linked⟩ | ⟨_, unchanged, _⟩
  · obtain ⟨member, found, _, declared⟩ := tied?_declared sound tied
    rw [linked, ← unchanged]
    rw [← unchanged] at sound found
    exact linkAccessor_grows sound found declared method definition body
  · rw [unchanged]

/-! ## Calls whose result is stored -/

theorem attachCall_cases (policy : CallPolicy) (on : TypeId) (reference : MethodReference)
    (field : FieldReference) :
    (∃ (property target : MemberId) (searched : Analysis),
      analysis.catalog.implemented? on .field field.name field.fullName = some property ∧
      searched.catalog = analysis.catalog ∧ (searched.resolve policy reference).1 = some target ∧
      (analysis.attachCall policy on reference field).1 = true ∧
      (analysis.attachCall policy on reference field).2.catalog =
        (searched.resolve policy reference).2.catalog.addDependencies property
          [.call property target]) ∨
    (∃ (property : MemberId) (searched : Analysis),
      analysis.catalog.implemented? on .field field.name field.fullName = some property ∧
      searched.catalog = analysis.catalog ∧ (searched.resolve policy reference).1 = none ∧
      (analysis.attachCall policy on reference field).1 = false ∧
      (analysis.attachCall policy on reference field).2.catalog =
        (searched.resolve policy reference).2.catalog) ∨
    (analysis.catalog.implemented? on .field field.name field.fullName = none ∧
      (analysis.attachCall policy on reference field).1 = false ∧
      (analysis.attachCall policy on reference field).2.catalog = analysis.catalog) := by
  obtain ⟨answer, unchanged⟩ : (analysis.propertyOf on .field field.name field.fullName).1 =
      analysis.catalog.implemented? on .field field.name field.fullName ∧ _ :=
    propertyOf_eq on .field field.name field.fullName
  unfold attachCall
  rw [← answer]
  cases found : analysis.propertyOf on .field field.name field.fullName with
  | mk property searched =>
      rw [found] at unchanged
      cases property with
      | none => exact .inr (.inr ⟨rfl, rfl, unchanged⟩)
      | some property =>
          dsimp only
          cases resolved : searched.resolve policy reference with
          | mk target resolvedIn =>
              cases target with
              | none =>
                  exact .inr (.inl ⟨property, searched, rfl, unchanged, by rw [resolved], rfl,
                    by rw [resolved]⟩)
              | some target =>
                  exact .inl ⟨property, target, searched, rfl, unchanged, by rw [resolved], rfl,
                    by rw [resolved]; rfl⟩

theorem attachCall_grows (sound : analysis.catalog.Sound) (on : TypeId)
    (reference : MethodReference) (field : FieldReference) :
    Grows policy analysis.catalog (analysis.attachCall policy on reference field).2.catalog := by
  rcases attachCall_cases policy on reference field with
    ⟨property, target, searched, implemented, unchanged, resolved, _, recorded⟩ |
    ⟨property, searched, _, unchanged, _, _, kept⟩ | ⟨_, _, kept⟩
  · obtain ⟨member, found, _, _⟩ := implemented?_declared sound implemented
    rw [recorded, ← unchanged]
    rw [← unchanged] at sound found
    have grown : Grows policy searched.catalog (searched.resolve policy reference).2.catalog :=
      resolve_grows sound reference
    refine grown.tail (.dependencies ?_)
    intro dependency there
    rw [List.mem_singleton] at there
    rw [there]
    exact .inl ⟨grown.extends.hasMember (hasMember_of_member? found),
      (grown.sound sound).memberNamed? (resolve_named resolved)⟩
  · rw [kept, ← unchanged]
    rw [← unchanged] at sound
    exact resolve_grows sound reference
  · rw [kept]

theorem attachCalls_grows (sound : analysis.catalog.Sound) (on : TypeId)
    (calls : List (MethodReference × FieldReference)) :
    Grows policy analysis.catalog (analysis.attachCalls policy on calls).2.catalog := by
  induction calls generalizing analysis with
  | nil => exact .refl
  | cons call rest ih =>
      have first : Grows policy analysis.catalog
          (analysis.attachCall policy on call.1 call.2).2.catalog :=
        attachCall_grows sound on call.1 call.2
      exact first.trans (ih (first.sound sound))

theorem attachStoredCalls_grows (sound : analysis.catalog.Sound) (on : TypeId) (body : MethodBody) :
    Grows policy analysis.catalog (analysis.attachStoredCalls policy on body).2.catalog := by
  unfold attachStoredCalls
  split
  · exact attachCalls_grows sound on _
  · exact .refl

/-! ## Methods and types -/

theorem typeUses_grows (use : TypeUse) (origin : MemberId) (references : List TypeReference) :
    Grows policy analysis.catalog (analysis.typeUses use origin references).2.catalog :=
  typesFor_grows references

private theorem typeUses_offered (sound : analysis.catalog.Sound) (use : TypeUse)
    {origin : MemberId}
    (known : analysis.catalog.hasMember origin) (references : List TypeReference) :
    ∀ dependency ∈ (analysis.typeUses use origin references).1,
      (analysis.typeUses use origin references).2.catalog.Offers dependency := by
  intro dependency there
  obtain ⟨target, found, rfl⟩ := List.mem_map.mp there
  have grown : Grows .stubExternal analysis.catalog (analysis.typesFor references).2.catalog :=
    typesFor_grows references
  exact .inl ⟨grown.extends.hasMember known, typesFor_known sound references target found⟩

theorem callUses_grows (sound : analysis.catalog.Sound) (origin : MemberId)
    (body : Option MethodBody) :
    Grows policy analysis.catalog (analysis.callUses policy origin body).2.catalog :=
  resolveAll_grows sound _

private theorem callUses_offered (sound : analysis.catalog.Sound) {origin : MemberId}
    (known : analysis.catalog.hasMember origin) (body : Option MethodBody) :
    ∀ dependency ∈ (analysis.callUses policy origin body).1.dependencies,
      (analysis.callUses policy origin body).2.catalog.Offers dependency := by
  intro dependency there
  obtain ⟨target, found, rfl⟩ := mem_callsTo there
  have grown : Grows policy analysis.catalog (analysis.callUses policy origin body).2.catalog :=
    callUses_grows sound origin body
  exact .inl ⟨grown.extends.hasMember known, resolveAll_known sound _ found⟩

variable {options : Options}

/-- What the body of a method gives: no calls without a body; an accessor is tied and gets none;
any other method gives stored calls to properties and gets its own calls. -/
theorem methodCalls_cases (options : Options) (on : TypeId) (id : MemberId)
    (method : MethodDefinition) :
    (method.body = none ∧ analysis.methodCalls options on id method = (.ok ([], {}), analysis)) ∨
    (∃ body, method.body = some body ∧ method.isAccessor ∧
      (analysis.methodCalls options on id method).2.catalog =
        (analysis.tieAccessor options.callPolicy on id method).2.catalog ∧
      (analysis.methodCalls options on id method).1 =
        (analysis.tieAccessor options.callPolicy on id method).1.map
          fun outcome => ([], accessorStatistics outcome)) ∨
    (∃ body, method.body = some body ∧ method.isAccessor = false ∧
      let attached := analysis.attachStoredCalls options.callPolicy on body
      let calls := attached.2.callUses options.callPolicy id (some body)
      (analysis.methodCalls options on id method).2 = calls.2 ∧
      (analysis.methodCalls options on id method).1 =
        .ok (calls.1.dependencies,
          { callDependencies := calls.1.dependencies.length
            unresolvedCalls := calls.1.unresolved
            backingFieldCalls := attached.1 })) := by
  unfold methodCalls
  cases method.body with
  | none => exact .inl ⟨rfl, rfl⟩
  | some body =>
      cases method.isAccessor with
      | false => exact .inr (.inr ⟨body, rfl, rfl, rfl, rfl⟩)
      | true =>
          refine .inr (.inl ⟨body, rfl, rfl, ?_⟩)
          cases analysis.tieAccessor options.callPolicy on id method with
          | mk outcome tied => cases outcome <;> exact ⟨rfl, rfl⟩

theorem methodCalls_grows (sound : analysis.catalog.Sound) (on : TypeId) (id : MemberId)
    (method : MethodDefinition) :
    Grows options.callPolicy analysis.catalog
      (analysis.methodCalls options on id method).2.catalog := by
  rcases methodCalls_cases options on id method with ⟨_, unchanged⟩ | ⟨body, _, _, tied, _⟩ |
    ⟨body, _, _, called, _⟩
  · rw [unchanged]
  · rw [tied]
    exact tieAccessor_grows sound on id method
  · rw [called]
    have attached : Grows options.callPolicy analysis.catalog
        (analysis.attachStoredCalls options.callPolicy on body).2.catalog :=
      attachStoredCalls_grows sound on body
    exact attached.trans (callUses_grows (attached.sound sound) id (some body))

private theorem methodCalls_offered (sound : analysis.catalog.Sound) {on : TypeId} {id : MemberId}
    (known : analysis.catalog.hasMember id) {method : MethodDefinition} {calls : List Dependency}
    {statistics : Statistics}
    (called : (analysis.methodCalls options on id method).1 = .ok (calls, statistics)) :
    ∀ dependency ∈ calls, (analysis.methodCalls options on id method).2.catalog.Offers dependency := by
  intro dependency there
  rcases methodCalls_cases options on id method with ⟨_, none⟩ | ⟨body, _, _, _, outcome⟩ |
    ⟨body, _, _, after, outcome⟩
  · rw [none] at called
    cases called
    cases there
  · rw [outcome] at called
    cases tied : (analysis.tieAccessor options.callPolicy on id method).1 with
    | error error => rw [tied] at called; cases called
    | ok link => rw [tied] at called; cases called; cases there
  · rw [outcome] at called
    cases called
    rw [after]
    have attached : Grows options.callPolicy analysis.catalog
        (analysis.attachStoredCalls options.callPolicy on body).2.catalog :=
      attachStoredCalls_grows sound on body
    exact callUses_offered (attached.sound sound) (attached.extends.hasMember known) (some body)
      dependency there

/-- Extracting a method: its signature, the types in its body and its calls are recorded together,
unless tying an accessor fails. -/
theorem extractKnownMethod_cases (options : Options) (on : TypeId) (id : MemberId)
    (method : MethodDefinition) :
    let signature := analysis.signatureUses id method
    let body := signature.2.bodyUses id method.body
    let called := body.2.methodCalls options on id method
    let outcome := analysis.extractKnownMethod options on id method
    (∃ calls statistics, called.1 = .ok (calls, statistics) ∧
      outcome.1 = .ok (statistics.merge
        { methods := 1
          signatureDependencies := signature.1.length
          bodyTypeDependencies := body.1.length }) ∧
      outcome.2.catalog =
        called.2.catalog.addDependencies id (signature.1 ++ body.1 ++ calls)) ∨
    (∃ error, called.1 = .error error ∧ outcome = (.error error, called.2)) := by
  rcases signing : analysis.signatureUses id method with ⟨signature, signed⟩
  rcases scanning : signed.bodyUses id method.body with ⟨body, scanned⟩
  rcases calling : scanned.methodCalls options on id method with ⟨answer, after⟩
  dsimp only
  rw [scanning, calling]
  cases answer with
  | error error =>
      exact .inr ⟨error, rfl, by simp only [extractKnownMethod, signing, scanning, calling]⟩
  | ok answer =>
      exact .inl ⟨answer.1, answer.2, rfl,
        by simp only [extractKnownMethod, signing, scanning, calling],
        by simp only [extractKnownMethod, signing, scanning, calling]; rfl⟩

/-- What a method gets itself is recorded last, when all of it is there. -/
theorem ownDependencies_grows (sound : analysis.catalog.Sound) {on : TypeId} {id : MemberId}
    (known : analysis.catalog.hasMember id) {method : MethodDefinition} {calls : List Dependency}
    {statistics : Statistics} :
    let signature := analysis.signatureUses id method
    let body := signature.2.bodyUses id method.body
    let called := body.2.methodCalls options on id method
    called.1 = .ok (calls, statistics) →
      Grows options.callPolicy called.2.catalog
        (called.2.catalog.addDependencies id (signature.1 ++ body.1 ++ calls)) := by
  intro signature body called answer
  have signing : Grows options.callPolicy analysis.catalog signature.2.catalog := typeUses_grows ..
  have scanning : Grows options.callPolicy signature.2.catalog body.2.catalog := typeUses_grows ..
  have scanned := Grows.sound (signing.trans scanning) sound
  have knownScanned := (Grows.extends (signing.trans scanning)).hasMember known
  have calling : Grows options.callPolicy body.2.catalog called.2.catalog :=
    methodCalls_grows scanned on id method
  refine .single (.dependencies fun dependency there => ?_)
  rcases List.mem_append.mp there with there | fromCalls
  · rcases List.mem_append.mp there with fromSignature | fromBody
    · exact (typeUses_offered sound .signature known _ dependency fromSignature).extended
        (Grows.extends (scanning.trans calling))
    · exact (typeUses_offered (signing.sound sound) .body (signing.extends.hasMember known) _
        dependency fromBody).extended calling.extends
  · exact methodCalls_offered scanned knownScanned answer dependency fromCalls

theorem extractKnownMethod_grows (sound : analysis.catalog.Sound) (on : TypeId) {id : MemberId}
    (known : analysis.catalog.hasMember id) (method : MethodDefinition) :
    Grows options.callPolicy analysis.catalog
      (analysis.extractKnownMethod options on id method).2.catalog := by
  have signature : Grows options.callPolicy analysis.catalog
      (analysis.signatureUses id method).2.catalog := typeUses_grows ..
  have body : Grows options.callPolicy (analysis.signatureUses id method).2.catalog
      ((analysis.signatureUses id method).2.bodyUses id method.body).2.catalog := typeUses_grows ..
  have called : Grows options.callPolicy
      ((analysis.signatureUses id method).2.bodyUses id method.body).2.catalog
      (((analysis.signatureUses id method).2.bodyUses id method.body).2.methodCalls options on id
        method).2.catalog := methodCalls_grows (Grows.sound (signature.trans body) sound) on id method
  have grown := (signature.trans body).trans called
  rcases extractKnownMethod_cases options on id method with
    ⟨calls, statistics, answer, _, recorded⟩ | ⟨error, _, failed⟩
  · rw [recorded]
    exact grown.trans (ownDependencies_grows sound known answer)
  · rw [failed]
    exact grown

theorem extractMethod_grows (sound : analysis.catalog.Sound) (on : TypeId)
    (method : MethodDefinition) :
    Grows options.callPolicy analysis.catalog
      (analysis.extractMethod options on method).2.catalog := by
  unfold extractMethod
  split
  · next id found =>
      obtain ⟨_, member, there, _⟩ := methodNamed?_eq_some_iff.mp found
      exact extractKnownMethod_grows sound on (hasMember_of_member? there) method
  · exact .refl

theorem extractMethods_grows (sound : analysis.catalog.Sound) (on : TypeId)
    (methods : List MethodDefinition) :
    Grows options.callPolicy analysis.catalog
      (analysis.extractMethods options on methods).2.catalog := by
  induction methods generalizing analysis with
  | nil => exact .refl
  | cons method rest ih =>
      have first : Grows options.callPolicy analysis.catalog
          (analysis.extractMethod options on method).2.catalog := extractMethod_grows sound on method
      unfold extractMethods
      cases outcome : analysis.extractMethod options on method with
      | mk answer after =>
          rw [outcome] at first
          cases answer with
          | error error => exact first
          | ok statistics =>
              have others := ih (first.sound sound)
              dsimp only
              cases remaining : after.extractMethods options on rest with
              | mk answer last =>
                  rw [remaining] at others
                  cases answer <;> exact first.trans others

theorem extractType_grows (sound : analysis.catalog.Sound) (on : TypeId)
    (definition : TypeDefinition) :
    Grows options.callPolicy analysis.catalog
      (analysis.extractType options on definition).2.catalog := by
  have methods : Grows options.callPolicy analysis.catalog
      (analysis.extractMethods options on definition.methods).2.catalog :=
    extractMethods_grows sound on definition.methods
  unfold extractType
  cases outcome : analysis.extractMethods options on definition.methods with
  | mk answer after =>
      rw [outcome] at methods
      cases answer <;> exact methods

theorem extractTypes_grows (sound : analysis.catalog.Sound) (loaded : List LoadedType) :
    Grows options.callPolicy analysis.catalog
      (analysis.extractTypes options loaded).2.catalog := by
  induction loaded generalizing analysis with
  | nil => exact .refl
  | cons type rest ih =>
      have first : Grows options.callPolicy analysis.catalog
          (analysis.extractType options type.1 type.2).2.catalog := extractType_grows sound _ _
      unfold extractTypes
      cases outcome : analysis.extractType options type.1 type.2 with
      | mk answer after =>
          rw [outcome] at first
          cases answer with
          | error error => exact first
          | ok statistics =>
              have others := ih (first.sound sound)
              dsimp only
              cases remaining : after.extractTypes options rest with
              | mk answer last =>
                  rw [remaining] at others
                  cases answer <;> exact first.trans others

end Analysis

end MemberGraph
