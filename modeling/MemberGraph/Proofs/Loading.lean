import MemberGraph.Proofs.Growth

/-!
How a whole analysis changes a catalog. Beside the growth of an extraction, types are defined,
members without backing links are added, and dependencies are recorded whose ends are there. Every
state that an analysis goes through is reached by such changes, so it is well formed.
-/

set_option autoImplicit false

namespace MemberGraph

namespace Catalog

/-! ## Elementary changes -/

def Unlinked (member : Member) : Prop := member.role.withoutBacking = member.role

/-- One elementary change of a catalog by an analysis. -/
inductive Change (policy : CallPolicy) : Catalog → Catalog → Prop where
  | growth {old new : Catalog} (growth : Growth policy old new) : Change policy old new
  | define {catalog : Catalog} (reference : TypeReference) (kind : TypeKind)
      (visibility : Visibility) :
      Change policy catalog (catalog.defineType reference kind visibility).2
  | insert {catalog : Catalog} {key : String} {make : MemberId → Member}
      (insertable : catalog.memberNamed? key = none → catalog.Insertable key make)
      (unlinked : ∀ id, Unlinked (make id)) :
      Change policy catalog (catalog.addMember key make).2
  | record {catalog : Catalog} {id : MemberId} {dependencies : List Dependency}
      (known : ∀ dependency ∈ dependencies, catalog.Knows dependency) :
      Change policy catalog (catalog.addDependencies id dependencies)
  | recordBackwards {catalog : Catalog} {id : MemberId} {dependency : Dependency}
      (known : catalog.Knows dependency) :
      Change policy catalog (catalog.addBackwards id dependency)
  | recordBetween {catalog : Catalog} {dependency : TypeDependency}
      (known : catalog.KnowsBetween dependency) :
      Change policy catalog (catalog.addTypeDependency dependency)

abbrev Changes (policy : CallPolicy) : Catalog → Catalog → Prop :=
  Relation.ReflTransGen (Change policy)

private theorem covers_defineType {catalog : Catalog} (reference : TypeReference) (kind : TypeKind)
    (visibility : Visibility) :
    catalog.Covers (catalog.defineType reference kind visibility).2 := by
  unfold defineType
  split
  · exact ⟨by simp, by simp⟩
  · next fresh => exact (extends_addType kind visibility false fresh).covers

private theorem defineType_known {catalog : Catalog} (formed : catalog.WellFormed)
    (reference : TypeReference) (kind : TypeKind) (visibility : Visibility) :
    (catalog.defineType reference kind visibility).2.hasType
      (catalog.defineType reference kind visibility).1 := by
  unfold defineType
  split
  · next id named => simpa using formed.hasType_of_named named
  · exact (hasType_addType ..).mpr (.inr rfl)

section Changes

variable {policy : CallPolicy} {old new : Catalog}

theorem Change.covers (change : Change policy old new) : old.Covers new := by
  cases change with
  | growth growth => exact growth.extends.covers
  | define reference kind visibility => exact covers_defineType reference kind visibility
  | insert insertable unlinked => exact (extends_addMember _ _).covers
  | record known => exact (extends_addDependencies _ _).covers
  | recordBackwards known => exact (extends_addBackwards _ _).covers
  | recordBetween known => exact (extends_addTypeDependency _).covers

theorem Change.wellFormed (change : Change policy old new) (formed : old.WellFormed) :
    new.WellFormed := by
  cases change with
  | growth growth => exact growth.wellFormed formed
  | define reference kind visibility => exact formed.defineType reference kind visibility
  | insert insertable unlinked => exact formed.addMember insertable
  | record known => exact formed.addDependencies known
  | recordBackwards known => exact formed.addBackwards known
  | recordBetween known => exact formed.addTypeDependency known

theorem Changes.covers (changes : Changes policy old new) : old.Covers new := by
  induction changes with
  | refl => exact ⟨id, id⟩
  | tail _ change ih =>
      exact ⟨fun known => change.covers.hasType (ih.hasType known),
        fun known => change.covers.hasMember (ih.hasMember known)⟩

theorem Changes.wellFormed (changes : Changes policy old new) (formed : old.WellFormed) :
    new.WellFormed := by
  induction changes with
  | refl => exact formed
  | tail _ change ih => exact change.wellFormed ih

theorem Grows.changes (grows : Grows policy old new) : Changes policy old new :=
  Relation.ReflTransGen.mono (fun _ _ growth => Change.growth growth) _ _ grows

end Changes

end Catalog

namespace Analysis

open Catalog

variable {analysis : Analysis} {policy : CallPolicy}

/-! ## Types -/

def isDefined (catalog : Catalog) (fullName : String) : Bool :=
  ((catalog.typeNamed? fullName).bind catalog.type?).any (!·.isStub)

theorem loadType_of_defined {definition : TypeDefinition}
    (defined : isDefined analysis.catalog definition.fullName) (assembly : String) :
    (analysis.loadType assembly definition).1 = none ∧
      (analysis.loadType assembly definition).2.catalog = analysis.catalog := by
  have known : ((analysis.catalog.typeNamed? definition.fullName).bind
    analysis.catalog.type?).any (!·.isStub) := defined
  simp [loadType, known, note]

theorem loadType_of_undefined {definition : TypeDefinition}
    (undefined : isDefined analysis.catalog definition.fullName = false) (assembly : String) :
    let defined := analysis.catalog.defineType
      { fullName := definition.fullName, assembly := some assembly }
      definition.kind definition.visibility
    (analysis.loadType assembly definition).1 = some (defined.1, definition) ∧
      (analysis.loadType assembly definition).2.catalog = defined.2 := by
  have unknown : ((analysis.catalog.typeNamed? definition.fullName).bind
    analysis.catalog.type?).any (!·.isStub) = false := undefined
  simp [loadType, unknown]

theorem loadType_changes (assembly : String) (definition : TypeDefinition) :
    Changes policy analysis.catalog (analysis.loadType assembly definition).2.catalog := by
  cases defined : isDefined analysis.catalog definition.fullName with
  | true => rw [(loadType_of_defined defined assembly).2]
  | false =>
      rw [(loadType_of_undefined defined assembly).2]
      exact .single (.define ..)

private theorem loadType_known (formed : analysis.catalog.WellFormed) {assembly : String}
    {definition : TypeDefinition} {loaded : LoadedType}
    (entered : (analysis.loadType assembly definition).1 = some loaded) :
    (analysis.loadType assembly definition).2.catalog.hasType loaded.1 := by
  cases defined : isDefined analysis.catalog definition.fullName with
  | true => rw [(loadType_of_defined defined assembly).1] at entered; cases entered
  | false =>
      rw [(loadType_of_undefined defined assembly).1] at entered
      rw [(loadType_of_undefined defined assembly).2]
      cases entered
      exact defineType_known formed ..

theorem loadTypes_changes (definitions : List (String × TypeDefinition)) :
    Changes policy analysis.catalog (analysis.loadTypes definitions).2.catalog := by
  induction definitions generalizing analysis with
  | nil => exact .refl
  | cons definition rest ih => exact (loadType_changes definition.1 definition.2).trans ih

theorem loadTypes_known (formed : analysis.catalog.WellFormed)
    (definitions : List (String × TypeDefinition)) :
    ∀ loaded ∈ (analysis.loadTypes definitions).1,
      (analysis.loadTypes definitions).2.catalog.hasType loaded.1 := by
  induction definitions generalizing analysis with
  | nil => simp [loadTypes]
  | cons definition rest ih =>
      intro loaded there
      have first : Changes .existingOnly analysis.catalog
          (analysis.loadType definition.1 definition.2).2.catalog := loadType_changes ..
      rcases List.mem_append.mp there with there | there
      · have others : Changes .existingOnly (analysis.loadType definition.1 definition.2).2.catalog
            ((analysis.loadType definition.1 definition.2).2.loadTypes rest).2.catalog :=
          loadTypes_changes rest
        exact others.covers.hasType (loadType_known formed (Option.mem_toList.mp there))
      · exact ih (first.wellFormed formed) loaded there

/-! ## Members -/

def fieldEntry (on target : TypeId) (field : FieldDefinition) (id : MemberId) : Member :=
  { id, declaringType := on, name := field.name, fullName := field.fullName
    memberType := target, visibility := field.visibility, isStub := false, role := .field none }

def methodEntry (on returnType : TypeId) (parameters genericParameters : List TypeId)
    (method : MethodDefinition) (id : MemberId) : Member :=
  { id, declaringType := on, name := method.name, fullName := method.fullName
    memberType := returnType, visibility := method.visibility, isStub := false
    role := .method
      { form := method.form, parameters, genericParameters, hasBody := method.body.isSome } }

def propertyEntry (on target : TypeId) (getter setter : Option MemberId)
    (property : PropertyDefinition) (id : MemberId) : Member :=
  { id, declaringType := on, name := property.name, fullName := property.fullName
    memberType := target, visibility := property.visibility, isStub := false
    role := .property { getter, setter } }

def addTyped (catalog : Catalog) (key : String) (make : MemberId → Member) (use : TypeUse)
    (target : TypeId) : Catalog :=
  let (id, catalog) := catalog.addMember key make
  catalog.addDependencies id [.onType use id target]

theorem loadField_of_fresh {field : FieldDefinition}
    (fresh : analysis.catalog.memberNamed? field.fullName = none) (on : TypeId) :
    (analysis.loadField on field).catalog =
      let typed := analysis.typeFor field.fieldType
      addTyped typed.2.catalog field.fullName (fieldEntry on typed.1 field) .field typed.1 := by
  simp only [loadField, unlessKnown, fresh]
  rfl

theorem loadMethod_of_fresh {method : MethodDefinition}
    (fresh : analysis.catalog.memberNamed? method.fullName = none) (on : TypeId) :
    (analysis.loadMethod on method).catalog =
      let withReturn := analysis.typeFor method.returnType
      let withParameters := withReturn.2.typesFor method.parameters
      let typed := withParameters.2.typesFor method.genericParameters
      (typed.2.catalog.addMember method.fullName
        (methodEntry on withReturn.1 withParameters.1 typed.1 method)).2 := by
  simp only [loadMethod, unlessKnown, fresh]
  rfl

theorem loadProperty_of_fresh {property : PropertyDefinition}
    (fresh : analysis.catalog.memberNamed? property.fullName = none) (on : TypeId) :
    (analysis.loadProperty on property).catalog =
      let typed := analysis.typeFor property.propertyType
      addTyped typed.2.catalog property.fullName
        (propertyEntry on typed.1 (property.getter.bind (analysis.catalog.methodNamed? on))
          (property.setter.bind (analysis.catalog.methodNamed? on)) property)
        .property typed.1 := by
  simp only [loadProperty, unlessKnown, fresh]
  rfl

theorem unlessKnown_of_known {fullName : String} {id : MemberId}
    (known : analysis.catalog.memberNamed? fullName = some id) (create : Analysis → Analysis) :
    (analysis.unlessKnown fullName create).catalog = analysis.catalog := by
  simp [unlessKnown, known, note]

theorem addTyped_changes {catalog : Catalog} (formed : catalog.WellFormed) {key : String}
    {make : MemberId → Member} (insertable : catalog.Insertable key make)
    (unlinked : ∀ id, Unlinked (make id)) (use : TypeUse) {target : TypeId}
    (known : catalog.hasType target) :
    Changes policy catalog (addTyped catalog key make use target) := by
  have added : Changes policy catalog (catalog.addMember key make).2 :=
    .single (.insert (fun _ => insertable) unlinked)
  refine added.tail (.record fun dependency there => ?_)
  rw [List.mem_singleton] at there
  rw [there]
  exact ⟨(added.wellFormed formed).hasMember_of_named (addMember_named make),
    added.covers.hasType known⟩

theorem loadField_changes (formed : analysis.catalog.WellFormed) {on : TypeId}
    (known : analysis.catalog.hasType on) (field : FieldDefinition) :
    Changes policy analysis.catalog (analysis.loadField on field).catalog := by
  cases fresh : analysis.catalog.memberNamed? field.fullName with
  | some id =>
      rw [loadField, unlessKnown_of_known fresh]
  | none =>
      rw [loadField_of_fresh fresh]
      have typed : Grows policy analysis.catalog (analysis.typeFor field.fieldType).2.catalog :=
        typeFor_grows field.fieldType
      have targetKnown := typeFor_known formed.sound field.fieldType
      refine typed.changes.trans (addTyped_changes (typed.wellFormed formed) ?_ ?_ _ targetKnown)
      swap
      · exact fun _ => rfl
      refine ⟨rfl, rfl, ?_, ?_⟩
      · constructor <;> simp [fieldEntry, KnowsRole, targetKnown, typed.extends.hasType known]
      · intro links isProperty
        cases isProperty

theorem loadMethod_changes (formed : analysis.catalog.WellFormed) {on : TypeId}
    (known : analysis.catalog.hasType on) (method : MethodDefinition) :
    Changes policy analysis.catalog (analysis.loadMethod on method).catalog := by
  cases fresh : analysis.catalog.memberNamed? method.fullName with
  | some id => rw [loadMethod, unlessKnown_of_known fresh]
  | none =>
      rw [loadMethod_of_fresh fresh]
      dsimp only
      have withReturn : Grows policy analysis.catalog
          (analysis.typeFor method.returnType).2.catalog := typeFor_grows method.returnType
      have returnKnown := typeFor_known formed.sound method.returnType
      generalize analysis.typeFor method.returnType = first at withReturn returnKnown ⊢
      have withParameters : Grows policy first.2.catalog
          (first.2.typesFor method.parameters).2.catalog := typesFor_grows method.parameters
      have parametersKnown := typesFor_known (withReturn.sound formed.sound) method.parameters
      generalize first.2.typesFor method.parameters = second at withParameters parametersKnown ⊢
      have typed : Grows policy second.2.catalog
          (second.2.typesFor method.genericParameters).2.catalog :=
        typesFor_grows method.genericParameters
      have genericKnown := typesFor_known
        (withParameters.sound (withReturn.sound formed.sound)) method.genericParameters
      generalize second.2.typesFor method.genericParameters = third at typed genericKnown ⊢
      have grown := (withReturn.trans withParameters).trans typed
      refine (Grows.changes grown).tail (.insert (fun _ => ?_) ?_)
      swap
      · exact fun _ => rfl
      refine ⟨rfl, rfl, ?_, ?_⟩
      · have later := Grows.extends (withParameters.trans typed)
        constructor
        · simpa [methodEntry] using Grows.extends grown |>.hasType known
        · simpa [methodEntry] using later.hasType returnKnown
        · simp only [methodEntry, KnowsRole, hasType_addMember]
          exact ⟨fun id there => typed.extends.hasType (parametersKnown id there), genericKnown⟩
        · simp [methodEntry]
        · simp [methodEntry]
      · intro links isProperty
        cases isProperty

/-- The accessors of a new property are methods that its type declares. -/
theorem accessor_declared {catalog : Catalog} {on : TypeId} {name : Option String}
    {accessor : MemberId} (linked : name.bind (catalog.methodNamed? on) = some accessor) :
    ∃ method, catalog.member? accessor = some method ∧ method.isMethod ∧
      method.declaringType = on := by
  obtain ⟨fullName, _, found⟩ := Option.bind_eq_some_iff.mp linked
  exact (methodNamed?_eq_some_iff.mp found).2

theorem loadProperty_changes (formed : analysis.catalog.WellFormed) {on : TypeId}
    (known : analysis.catalog.hasType on) (property : PropertyDefinition) :
    Changes policy analysis.catalog (analysis.loadProperty on property).catalog := by
  cases fresh : analysis.catalog.memberNamed? property.fullName with
  | some id => rw [loadProperty, unlessKnown_of_known fresh]
  | none =>
      rw [loadProperty_of_fresh fresh]
      have typed : Grows policy analysis.catalog
          (analysis.typeFor property.propertyType).2.catalog := typeFor_grows property.propertyType
      have targetKnown := typeFor_known formed.sound property.propertyType
      have own : ∀ {name : Option String} {accessor : MemberId},
          name.bind (analysis.catalog.methodNamed? on) = some accessor →
          ∃ method, (analysis.typeFor property.propertyType).2.catalog.member? accessor =
            some method ∧ method.isMethod ∧ method.declaringType = on := by
        intro name accessor linked
        obtain ⟨method, found, isMethod, declared⟩ := accessor_declared linked
        obtain ⟨later, there, extended⟩ := typed.extends.member? found
        exact ⟨later, there, extended.isMethod.trans isMethod,
          extended.declaringType.trans declared⟩
      have ownKnown : ∀ {key : String} {make : MemberId → Member} {name : Option String},
          ∀ accessor ∈ name.bind (analysis.catalog.methodNamed? on),
            ((analysis.typeFor property.propertyType).2.catalog.addMember key make).2.hasMember
              accessor := by
        intro key make name accessor linked
        obtain ⟨method, found, _⟩ := own linked
        exact (extends_addMember key make).hasMember (hasMember_of_member? found)
      refine typed.changes.trans (addTyped_changes (typed.wellFormed formed) ?_ ?_ _ targetKnown)
      swap
      · exact fun _ => rfl
      refine ⟨rfl, rfl, ?_, ?_⟩
      · constructor
        · simpa [propertyEntry] using typed.extends.hasType known
        · simpa [propertyEntry] using targetKnown
        · exact ⟨ownKnown, ownKnown, by simp⟩
        · simp [propertyEntry]
        · simp [propertyEntry]
      · intro links isProperty accessor linked
        cases isProperty
        exact linked.elim own own

section Folds

variable {on : TypeId} {α : Type} {load : Analysis → α → Analysis}

theorem foldl_changes
    (changes : ∀ {analysis : Analysis}, analysis.catalog.WellFormed → analysis.catalog.hasType on →
      ∀ definition, Changes policy analysis.catalog (load analysis definition).catalog)
    (formed : analysis.catalog.WellFormed) (known : analysis.catalog.hasType on)
    (definitions : List α) :
    Changes policy analysis.catalog (definitions.foldl load analysis).catalog := by
  induction definitions generalizing analysis with
  | nil => exact .refl
  | cons definition rest ih =>
      have first := changes formed known definition
      exact first.trans (ih (first.wellFormed formed) (first.covers.hasType known))

theorem foldl_loadField_changes (formed : analysis.catalog.WellFormed)
    (known : analysis.catalog.hasType on) (fields : List FieldDefinition) :
    Changes policy analysis.catalog (fields.foldl (·.loadField on ·) analysis).catalog :=
  foldl_changes (fun formed known => loadField_changes formed known) formed known fields

theorem foldl_loadMethod_changes (formed : analysis.catalog.WellFormed)
    (known : analysis.catalog.hasType on) (methods : List MethodDefinition) :
    Changes policy analysis.catalog (methods.foldl (·.loadMethod on ·) analysis).catalog :=
  foldl_changes (fun formed known => loadMethod_changes formed known) formed known methods

theorem foldl_loadProperty_changes (formed : analysis.catalog.WellFormed)
    (known : analysis.catalog.hasType on) (properties : List PropertyDefinition) :
    Changes policy analysis.catalog (properties.foldl (·.loadProperty on ·) analysis).catalog :=
  foldl_changes (fun formed known => loadProperty_changes formed known) formed known properties

end Folds

theorem loadMembers_changes (formed : analysis.catalog.WellFormed) (loaded : LoadedType)
    (known : analysis.catalog.hasType loaded.1) :
    Changes policy analysis.catalog (analysis.loadMembers loaded).catalog := by
  have fields : Changes policy analysis.catalog _ :=
    foldl_loadField_changes formed known loaded.2.fields
  have methods := fields.trans (foldl_loadMethod_changes (fields.wellFormed formed)
    (fields.covers.hasType known) loaded.2.methods)
  exact methods.trans (foldl_loadProperty_changes (Changes.wellFormed methods formed)
    ((Changes.covers methods).hasType known) loaded.2.properties)

theorem foldl_loadMembers_changes (formed : analysis.catalog.WellFormed) (loaded : List LoadedType)
    (known : ∀ one ∈ loaded, analysis.catalog.hasType one.1) :
    Changes policy analysis.catalog (loaded.foldl loadMembers analysis).catalog := by
  induction loaded generalizing analysis with
  | nil => exact .refl
  | cons one rest ih =>
      have first : Changes policy analysis.catalog (analysis.loadMembers one).catalog :=
        loadMembers_changes formed one (known one (by simp))
      refine first.trans (ih (first.wellFormed formed) fun other there => ?_)
      exact first.covers.hasType (known other (List.mem_cons_of_mem _ there))

theorem allocate_changes (formed : analysis.catalog.WellFormed) (metadata : Metadata) :
    Changes policy analysis.catalog (analysis.allocate metadata).2.catalog := by
  have types : Changes policy analysis.catalog
      (analysis.loadTypes (typeDefinitions metadata)).2.catalog := loadTypes_changes _
  exact types.trans (foldl_loadMembers_changes (types.wellFormed formed) _
    (loadTypes_known formed _))

end Analysis

namespace Catalog

/-! ## Dependencies turned around -/

variable {catalog : Catalog} {policy : CallPolicy}

theorem typeDependency?_known (formed : catalog.WellFormed) {holder : TypeId}
    (holderKnown : catalog.hasType holder) {dependency : Dependency}
    (known : catalog.Knows dependency) {between : TypeDependency}
    (leaves : catalog.typeDependency? holder dependency = some between) :
    catalog.KnowsBetween between := by
  unfold typeDependency? at leaves
  split at leaves
  · next target found =>
      split at leaves
      · cases leaves
      · cases leaves
        refine ⟨holderKnown, ?_, known⟩
        cases dependency with
        | onType use origin used =>
            cases found
            exact known.2
        | call origin called =>
            obtain ⟨member, there, rfl⟩ := Option.map_eq_some_iff.mp found
            exact (formed.knowsMember there).declaringType
  · cases leaves

/-- A dependency whose ends are there, held by a member of a type that is there. -/
def Held (catalog : Catalog) (held : TypeId × Dependency) : Prop :=
  catalog.hasType held.1 ∧ catalog.Knows held.2

theorem Held.covered {old new : Catalog} (covers : old.Covers new) {held : TypeId × Dependency}
    (there : old.Held held) : new.Held held :=
  ⟨covers.hasType there.1, there.2.covered covers⟩

theorem heldDependencies_held (formed : catalog.WellFormed) :
    ∀ held ∈ catalog.heldDependencies, catalog.Held held := by
  intro held there
  obtain ⟨member, listed, there⟩ := List.mem_flatMap.mp there
  obtain ⟨dependency, recorded, rfl⟩ := List.mem_map.mp there
  obtain ⟨index, found⟩ := List.getElem?_of_mem listed
  have known := formed.knowsMember (show catalog.member? ⟨index⟩ = some member by
    rwa [Array.getElem?_toList] at found)
  exact ⟨known.declaringType, known.dependencies _ (Array.mem_toList_iff.mp recorded)⟩

theorem recordCall_changes {dependency : Dependency} (known : catalog.Knows dependency) :
    Changes policy catalog (catalog.recordCall dependency) := by
  cases dependency with
  | onType use origin target => exact .refl
  | call origin target => exact .single (.recordBackwards known)

/-- Turning dependencies around keeps whatever recording backwards and between types keeps. -/
theorem linkBackwards_induction {motive : Catalog → Prop}
    (backwards : ∀ {catalog} id dependency, motive catalog →
      motive (catalog.addBackwards id dependency))
    (between : ∀ {catalog} dependency, motive catalog →
      motive (catalog.addTypeDependency dependency))
    (start : motive catalog) : motive catalog.linkBackwards.2 := by
  have step : ∀ (state : Nat × Catalog) (held : TypeId × Dependency), motive state.2 →
      motive (linkHeld state held).2 := by
    intro state held before
    have recorded : motive (state.2.recordCall held.2) := by
      cases held.2 with
      | onType use origin target => exact before
      | call origin target => exact backwards target _ before
    unfold linkHeld
    dsimp only
    split
    · exact between _ recorded
    · exact recorded
  have folded : ∀ (held : List (TypeId × Dependency)) (state : Nat × Catalog), motive state.2 →
      motive (held.foldl linkHeld state).2 := by
    intro held
    induction held with
    | nil => exact fun _ before => before
    | cons one rest ih => exact fun state before => ih _ (step state one before)
  exact folded catalog.heldDependencies (0, catalog) start

theorem updated_linkBackwards : catalog.Updated catalog.linkBackwards.2 :=
  linkBackwards_induction (fun _ _ before => before.trans (updated_addBackwards _ _))
    (fun _ before => before.trans (updated_addTypeDependency _)) (.refl _)

theorem linkHeld_changes (formed : catalog.WellFormed) (count : Nat) {held : TypeId × Dependency}
    (there : catalog.Held held) : Changes policy catalog (linkHeld (count, catalog) held).2 := by
  have recorded : Changes policy catalog (catalog.recordCall held.2) := recordCall_changes there.2
  have held' := there.covered recorded.covers
  unfold linkHeld
  dsimp only
  split
  · next between leaves =>
      exact recorded.tail (.recordBetween
        (typeDependency?_known (recorded.wellFormed formed) held'.1 held'.2 leaves))
  · exact recorded

theorem foldl_linkHeld_changes (formed : catalog.WellFormed) (count : Nat)
    {held : List (TypeId × Dependency)} (there : ∀ one ∈ held, catalog.Held one) :
    Changes policy catalog (held.foldl linkHeld (count, catalog)).2 := by
  induction held generalizing catalog count with
  | nil => exact .refl
  | cons one rest ih =>
      have first : Changes policy catalog (linkHeld (count, catalog) one).2 :=
        linkHeld_changes formed count (there one (by simp))
      refine first.trans (ih (first.wellFormed formed) _ fun other listed => ?_)
      exact (there other (List.mem_cons_of_mem _ listed)).covered first.covers

theorem linkBackwards_changes (formed : catalog.WellFormed) :
    Changes policy catalog catalog.linkBackwards.2 :=
  foldl_linkHeld_changes formed 0 (heldDependencies_held formed)

end Catalog

end MemberGraph
