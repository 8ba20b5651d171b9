import MemberGraph.Proofs.Recorded

/-!
What the first pass of an analysis makes of metadata. Of several types with one name the first is
loaded, and of several members with one name the first that is met: type by type, the fields, then
the methods, then the properties.
-/

set_option autoImplicit false

namespace MemberGraph

/-! ## Definitions in load order -/

/-- The values without those whose name stands before. -/
def firstOf {α : Type} (name : α → String) : List α → List α
  | [] => []
  | value :: rest => value :: (firstOf name rest).filter (name · ≠ name value)

section FirstOf

variable {α : Type} {name : α → String}

theorem firstOf_of_nodup {values : List α} (distinct : (values.map name).Nodup) :
    firstOf name values = values := by
  induction values with
  | nil => rfl
  | cons value rest ih =>
      obtain ⟨fresh, later⟩ := List.nodup_cons.mp distinct
      rw [firstOf, ih later, List.filter_eq_self.mpr]
      intro other there
      exact decide_eq_true fun same => fresh (same ▸ List.mem_map_of_mem there)

theorem firstOf_concat (values : List α) (value : α) :
    firstOf name (values ++ [value]) =
      firstOf name values ++ if values.any (name · = name value) then [] else [value] := by
  induction values with
  | nil => rfl
  | cons first rest ih =>
      rw [List.cons_append, firstOf, ih, List.filter_append, List.any_cons, firstOf]
      by_cases same : name first = name value
      · simp [same]
      · have kept : (if rest.any (name · = name value) then [] else [value]).filter
            (name · ≠ name first) = if rest.any (name · = name value) then [] else [value] := by
          split
          · rfl
          · simp [Ne.symm same]
        rw [kept]
        simp [same]

private theorem find?_firstOf (values : List α) (wanted : String) :
    (firstOf name values).find? (name · = wanted) = values.find? (name · = wanted) := by
  induction values with
  | nil => rfl
  | cons first rest ih =>
      rw [firstOf, List.find?_cons, List.find?_cons]
      by_cases same : name first = wanted
      · simp [same]
      · simp only [same, decide_false]
        rw [List.find?_filter, ← ih]
        congr 1
        funext value
        by_cases other : name value = wanted
        · simp [other, Ne.symm same]
        · simp [other]

theorem any_firstOf (values : List α) (wanted : String) :
    (firstOf name values).any (name · = wanted) = values.any (name · = wanted) := by
  rw [← List.isSome_find?, ← List.isSome_find?, find?_firstOf]

theorem filter_firstOf (values : List α) (wanted : String) :
    (firstOf name values).filter (name · = wanted) = (values.find? (name · = wanted)).toList := by
  induction values with
  | nil => rfl
  | cons first rest ih =>
      rw [firstOf, List.find?_cons, List.filter_cons, List.filter_filter]
      by_cases same : name first = wanted
      · have others : (firstOf name rest).filter (fun value =>
            name value = wanted && decide (name value ≠ name first)) = [] := by
          refine List.filter_eq_nil_iff.mpr fun value _ => ?_
          simp [same]
        rw [others]
        simp [same]
      · have others : (firstOf name rest).filter (fun value =>
            name value = wanted && decide (name value ≠ name first)) =
              (firstOf name rest).filter (name · = wanted) := by
          refine List.filter_congr fun value _ => ?_
          by_cases named : name value = wanted
          · simp [named, Ne.symm same]
          · simp [named]
        rw [others, ih]
        simp [same]

theorem firstOf_pairwise (values : List α) :
    (firstOf name values).Pairwise (name · ≠ name ·) := by
  induction values with
  | nil => exact .nil
  | cons first rest ih =>
      refine .cons (fun other there same => ?_) (ih.filter _)
      exact of_decide_eq_true (List.mem_filter.mp there).2 same.symm

end FirstOf

inductive MemberDefinition where
  | field (definition : FieldDefinition)
  | method (definition : MethodDefinition)
  | property (definition : PropertyDefinition)
deriving DecidableEq, Repr

namespace MemberDefinition

def fullName : MemberDefinition → String
  | field definition => definition.fullName
  | method definition => definition.fullName
  | property definition => definition.fullName

def isMethod : MemberDefinition → Bool
  | method _ => true
  | _ => false

def initialCount : MemberDefinition → Nat
  | method _ => 0
  | _ => 1

theorem initialCount_eq (definition : MemberDefinition) :
    definition.initialCount = if definition.isMethod then 0 else 1 := by
  cases definition <;> rfl

end MemberDefinition

def TypeDefinition.memberDefinitions (definition : TypeDefinition) : List MemberDefinition :=
  definition.fields.map .field ++ definition.methods.map .method ++
    definition.properties.map .property

/-- Whether the first of the definitions of a name is that of a method of the type. -/
def declaresAmong (definitions : List (String × MemberDefinition)) (typeName methodName : String) :
    Bool :=
  (definitions.find? (·.2.fullName = methodName)).any fun member =>
    member.2.isMethod && member.1 = typeName

namespace Metadata

def definitions (metadata : Metadata) : List TypeDefinition :=
  metadata.assemblies.flatMap (·.types)

/-- The types that metadata defines, each with the name of its assembly. -/
def namedDefinitions (metadata : Metadata) : List (String × TypeDefinition) :=
  metadata.assemblies.flatMap fun assembly => assembly.types.map (assembly.name, ·)

theorem namedDefinitions_eq (metadata : Metadata) :
    metadata.namedDefinitions = Analysis.typeDefinitions metadata := rfl

theorem definitions_eq (metadata : Metadata) :
    metadata.definitions = metadata.namedDefinitions.map (·.2) := by
  simp [definitions, namedDefinitions, List.map_flatMap, Function.comp_def]

def defines (metadata : Metadata) (fullName : String) : Bool :=
  metadata.definitions.any (·.fullName = fullName)

/-- The members that metadata defines in load order, each with the name of its type. -/
def memberDefinitions (metadata : Metadata) : List (String × MemberDefinition) :=
  (firstOf (·.fullName) metadata.definitions).flatMap fun definition =>
    definition.memberDefinitions.map fun member => (definition.fullName, member)

end Metadata

/-! ## Types -/

namespace Catalog

section Defined

variable {catalog old new : Catalog} {policy : CallPolicy}

theorem typeNamed?_defineType (reference : TypeReference) (kind : TypeKind)
    (visibility : Visibility) (name : String) :
    (catalog.defineType reference kind visibility).2.typeNamed? name =
      if reference.fullName = name then some (catalog.defineType reference kind visibility).1
      else catalog.typeNamed? name := by
  unfold defineType
  split
  · next id known =>
      split
      · next same => rw [← same]; exact known
      · rfl
  · exact typeNamed?_addType ..

private theorem defineType_defined (formed : catalog.WellFormed) (reference : TypeReference)
    (kind : TypeKind) (visibility : Visibility) :
    (catalog.defineType reference kind visibility).2.Defined
      (catalog.defineType reference kind visibility).1 := by
  unfold defineType
  split
  · next id known =>
      obtain ⟨entry, found, _⟩ := formed.typeNamed?_iff.mp known
      refine ⟨promote reference kind visibility entry, ?_, ?_⟩
      · dsimp only
        rw [type?_updateType, if_pos rfl, found]
        rfl
      · unfold promote
        split
        · rfl
        · next notStub => simpa using notStub
  · exact ⟨_, (type?_addType_iff ..).mpr (.inl ⟨rfl, rfl⟩), rfl⟩

theorem Defined.defineType {on : TypeId} (defined : catalog.Defined on) (reference : TypeReference)
    (kind : TypeKind) (visibility : Visibility) :
    (catalog.defineType reference kind visibility).2.Defined on := by
  obtain ⟨entry, found, notStub⟩ := defined
  unfold Catalog.defineType
  split
  · next id known =>
      dsimp only [Defined]
      rw [type?_updateType]
      split
      · exact ⟨entry, by simp [found, promote, notStub], notStub⟩
      · exact ⟨entry, found, notStub⟩
  · exact ⟨entry, (type?_addType_iff ..).mpr (.inr found), notStub⟩

theorem Extends.defined (extended : old.Extends new) {on : TypeId} (defined : old.Defined on) :
    new.Defined on := by
  obtain ⟨entry, found, notStub⟩ := defined
  obtain ⟨later, there, entryExtended⟩ := extended.type? found
  exact ⟨later, there, entryExtended.isStub.trans notStub⟩

/-- The name is that of a type, which is defined. -/
def Names (catalog : Catalog) (name : String) (on : TypeId) : Prop :=
  catalog.typeNamed? name = some on ∧ catalog.Defined on

theorem Extends.names (extended : old.Extends new) {name : String} {on : TypeId}
    (names : old.Names name on) : new.Names name on :=
  ⟨extended.typeNamed? names.1, extended.defined names.2⟩

theorem Change.names (change : Change policy old new) {name : String} {on : TypeId}
    (names : old.Names name on) : new.Names name on := by
  cases change with
  | growth growth => exact growth.extends.names names
  | define reference kind visibility =>
      refine ⟨?_, names.2.defineType reference kind visibility⟩
      rw [typeNamed?_defineType]
      split
      · next same =>
          subst same
          simp only [Catalog.defineType, names.1]
      · exact names.1
  | insert insertable unlinked => exact (extends_addMember _ _).names names
  | record known => exact (extends_addDependencies _ _).names names
  | recordBackwards known => exact (extends_addBackwards _ _).names names
  | recordBetween known => exact (extends_addTypeDependency _).names names

theorem Changes.names (changes : Changes policy old new) {name : String} {on : TypeId}
    (names : old.Names name on) : new.Names name on := by
  induction changes with
  | refl => exact names
  | tail _ change before => exact change.names before

end Defined

end Catalog

namespace Analysis

open Catalog

variable {analysis : Analysis}

theorem isDefined_iff {catalog : Catalog} {name : String} :
    isDefined catalog name ↔ ∃ on, catalog.Names name on := by
  unfold isDefined Names Defined
  cases named : catalog.typeNamed? name with
  | none => simp
  | some on =>
      cases found : catalog.type? on with
      | none => simp [found]
      | some entry => simp [found]

private theorem isDefined_defineType {catalog : Catalog} (formed : catalog.WellFormed)
    (reference : TypeReference) (kind : TypeKind) (visibility : Visibility) (name : String) :
    isDefined (catalog.defineType reference kind visibility).2 name ↔
      reference.fullName = name ∨ isDefined catalog name := by
  simp only [isDefined_iff]
  constructor
  · rintro ⟨on, named, entry, found, notStub⟩
    rw [typeNamed?_defineType] at named
    split at named
    · next same => exact .inl same
    · next differs =>
        refine .inr ⟨on, named, ?_⟩
        obtain ⟨before, there, fullName⟩ := formed.typeNamed?_iff.mp named
        refine ⟨before, there, ?_⟩
        unfold Catalog.defineType at found
        split at found
        · next id known =>
            have elsewhere : id ≠ on := by
              rintro rfl
              obtain ⟨other, alsoThere, otherName⟩ := formed.typeNamed?_iff.mp known
              rw [there] at alsoThere
              cases alsoThere
              exact differs (otherName.symm.trans fullName)
            dsimp only at found
            rw [type?_updateType, if_neg elsewhere, there] at found
            cases found
            exact notStub
        · rcases (type?_addType_iff ..).mp found with ⟨rfl, _⟩ | found
          · simp [type?] at there
          · rw [there] at found
            cases found
            exact notStub
  · rintro (rfl | ⟨on, names⟩)
    · exact ⟨_, by rw [typeNamed?_defineType, if_pos rfl], defineType_defined formed ..⟩
    · have change : Change .existingOnly catalog (catalog.defineType reference kind visibility).2 :=
        .define reference kind visibility
      exact ⟨on, change.names names⟩

private theorem loadTypes_loaded (formed : analysis.catalog.WellFormed)
    (definitions : List (String × TypeDefinition)) :
    (analysis.loadTypes definitions).1.map (·.2) =
      (firstOf (·.fullName) (definitions.map (·.2))).filter
        (!isDefined analysis.catalog ·.fullName) := by
  induction definitions generalizing analysis with
  | nil => rfl
  | cons given rest ih =>
      obtain ⟨assembly, definition⟩ := given
      have loading : Changes .existingOnly analysis.catalog
          (analysis.loadType assembly definition).2.catalog := loadType_changes assembly definition
      have others := ih (loading.wellFormed formed)
      rw [List.map_cons, firstOf, List.filter_cons, List.filter_filter]
      simp only [loadTypes, List.map_append, others]
      cases defined : isDefined analysis.catalog definition.fullName with
      | true =>
          rw [(loadType_of_defined defined assembly).1, (loadType_of_defined defined assembly).2]
          simp only [Option.toList_none, List.map_nil, List.nil_append, Bool.not_true,
            Bool.false_eq_true, if_false]
          refine List.filter_congr fun other _ => ?_
          by_cases same : other.fullName = definition.fullName
          · simp [same, defined]
          · simp [same]
      | false =>
          rw [(loadType_of_undefined defined assembly).1, (loadType_of_undefined defined assembly).2]
          simp only [Option.toList_some, List.map_cons, List.map_nil, List.cons_append,
            List.nil_append, Bool.not_false, if_true]
          congr 1
          refine List.filter_congr fun other _ => ?_
          have either := isDefined_defineType formed
            { fullName := definition.fullName, assembly := some assembly } definition.kind
            definition.visibility other.fullName
          rw [Bool.eq_iff_iff]
          simp only [Bool.not_eq_true', Bool.and_eq_true, ← Bool.not_eq_true, either, not_or,
            decide_eq_true_eq, ne_eq]
          rw [and_comm, @eq_comm _ definition.fullName]

private theorem loadTypes_names (formed : analysis.catalog.WellFormed)
    (definitions : List (String × TypeDefinition)) :
    ∀ loaded ∈ (analysis.loadTypes definitions).1,
      (analysis.loadTypes definitions).2.catalog.Names loaded.2.fullName loaded.1 := by
  induction definitions generalizing analysis with
  | nil => simp [loadTypes]
  | cons given rest ih =>
      obtain ⟨assembly, definition⟩ := given
      intro loaded there
      have loading : Changes .existingOnly analysis.catalog
          (analysis.loadType assembly definition).2.catalog := loadType_changes assembly definition
      have either : loaded ∈ (analysis.loadType assembly definition).1.toList ++
          ((analysis.loadType assembly definition).2.loadTypes rest).1 := there
      rcases List.mem_append.mp either with first | others
      · have later : Changes .existingOnly (analysis.loadType assembly definition).2.catalog
            ((analysis.loadType assembly definition).2.loadTypes rest).2.catalog :=
          loadTypes_changes rest
        refine later.names ?_
        cases defined : isDefined analysis.catalog definition.fullName with
        | true => simp [(loadType_of_defined defined assembly).1] at first
        | false =>
            rw [(loadType_of_undefined defined assembly).1] at first
            rw [(loadType_of_undefined defined assembly).2]
            rw [Option.toList_some, List.mem_singleton] at first
            subst first
            exact ⟨by rw [typeNamed?_defineType, if_pos rfl], defineType_defined formed ..⟩
      · exact ih (loading.wellFormed formed) loaded others

private theorem loadTypes_isDefined (formed : analysis.catalog.WellFormed)
    (definitions : List (String × TypeDefinition)) (name : String) :
    isDefined (analysis.loadTypes definitions).2.catalog name ↔
      isDefined analysis.catalog name ∨ ∃ definition ∈ definitions, definition.2.fullName = name := by
  induction definitions generalizing analysis with
  | nil => simp [loadTypes]
  | cons given rest ih =>
      obtain ⟨assembly, definition⟩ := given
      have loading : Changes .existingOnly analysis.catalog
          (analysis.loadType assembly definition).2.catalog := loadType_changes assembly definition
      have first : isDefined (analysis.loadType assembly definition).2.catalog name ↔
          definition.fullName = name ∨ isDefined analysis.catalog name := by
        cases defined : isDefined analysis.catalog definition.fullName with
        | true =>
            rw [(loadType_of_defined defined assembly).2]
            refine ⟨.inr, ?_⟩
            rintro (rfl | known)
            · exact defined
            · exact known
        | false =>
            rw [(loadType_of_undefined defined assembly).2]
            exact isDefined_defineType formed ..
      simp only [loadTypes, ih (loading.wellFormed formed), first, List.mem_cons, exists_eq_or_imp]
      exact or_assoc.trans or_left_comm

/-! ## Members -/

def loadMember (analysis : Analysis) (on : TypeId) : MemberDefinition → Analysis
  | .field definition => analysis.loadField on definition
  | .method definition => analysis.loadMethod on definition
  | .property definition => analysis.loadProperty on definition

private theorem loadMembers_catalog (loaded : LoadedType) :
    (analysis.loadMembers loaded).catalog =
      (loaded.2.memberDefinitions.foldl (·.loadMember loaded.1 ·) analysis).catalog := by
  simp only [TypeDefinition.memberDefinitions, List.foldl_append, List.foldl_map]
  rfl

theorem loadMember_changes {policy : CallPolicy} (formed : analysis.catalog.WellFormed)
    {on : TypeId} (known : analysis.catalog.hasType on) (definition : MemberDefinition) :
    Changes policy analysis.catalog (analysis.loadMember on definition).catalog := by
  cases definition with
  | field definition => exact loadField_changes formed known definition
  | method definition => exact loadMethod_changes formed known definition
  | property definition => exact loadProperty_changes formed known definition

theorem loadMember_of_known {on : TypeId} {definition : MemberDefinition} {id : MemberId}
    (known : analysis.catalog.memberNamed? definition.fullName = some id) :
    (analysis.loadMember on definition).catalog = analysis.catalog := by
  cases definition with
  | field definition => exact unlessKnown_of_known known _
  | method definition => exact unlessKnown_of_known known _
  | property definition => exact unlessKnown_of_known known _

/-- Whatever these changes keep is kept when members are entered: the stub of a type whose name is
new, a member without calls of it, and dependencies. -/
structure KeptByLoading (motive : Catalog → Prop) : Prop where
  stubType : ∀ {catalog : Catalog} {reference : TypeReference},
    catalog.typeNamed? reference.fullName = none → motive catalog →
    motive (catalog.addStubType reference).2
  insert : ∀ {catalog : Catalog} {key : String} {make : MemberId → Member},
    (∀ id, (make id).backwards = #[]) → motive catalog → motive (catalog.addMember key make).2
  record : ∀ {catalog : Catalog} {id : MemberId} {dependencies : List Dependency},
    motive catalog → motive (catalog.addDependencies id dependencies)

namespace KeptByLoading

variable {motive : Catalog → Prop} (kept : KeptByLoading motive) {analysis : Analysis}
include kept

theorem typeFor (start : motive analysis.catalog) (reference : TypeReference) :
    motive (analysis.typeFor reference).2.catalog := by
  cases known : analysis.catalog.typeNamed? reference.fullName with
  | some id =>
      rw [typeFor_of_known known]
      exact start
  | none =>
      rw [(typeFor_of_fresh known).2]
      exact kept.stubType known start

theorem typesFor (start : motive analysis.catalog) (references : List TypeReference) :
    motive (analysis.typesFor references).2.catalog := by
  induction references generalizing analysis with
  | nil => exact start
  | cons reference rest ih => exact ih (kept.typeFor start reference)

theorem loadMember (start : motive analysis.catalog) (on : TypeId)
    (definition : MemberDefinition) : motive (analysis.loadMember on definition).catalog := by
  cases fresh : analysis.catalog.memberNamed? definition.fullName with
  | some id =>
      rw [loadMember_of_known fresh]
      exact start
  | none =>
      cases definition with
      | field definition =>
          rw [show (analysis.loadMember on (.field definition)).catalog = _ from
            loadField_of_fresh fresh on]
          exact kept.record (kept.insert (fun _ => rfl) (kept.typeFor start _))
      | method definition =>
          rw [show (analysis.loadMember on (.method definition)).catalog = _ from
            loadMethod_of_fresh fresh on]
          exact kept.insert (fun _ => rfl) (kept.typesFor (kept.typesFor (kept.typeFor start _) _) _)
      | property definition =>
          rw [show (analysis.loadMember on (.property definition)).catalog = _ from
            loadProperty_of_fresh fresh on]
          exact kept.record (kept.insert (fun _ => rfl) (kept.typeFor start _))

theorem loadMembers (start : motive analysis.catalog) (loaded : LoadedType) :
    motive (analysis.loadMembers loaded).catalog := by
  rw [loadMembers_catalog]
  generalize loaded.2.memberDefinitions = definitions
  induction definitions generalizing analysis with
  | nil => exact start
  | cons definition rest ih => exact ih (kept.loadMember start loaded.1 definition)

theorem foldl_loadMembers (start : motive analysis.catalog) (loaded : List LoadedType) :
    motive (loaded.foldl Analysis.loadMembers analysis).catalog := by
  induction loaded generalizing analysis with
  | nil => exact start
  | cons one rest ih => exact ih (kept.loadMembers start one)

end KeptByLoading

structure SameEntries (old new : Catalog) : Prop where
  members : new.members = old.members
  memberIndex : new.memberIndex = old.memberIndex

theorem SameEntries.trans {first second third : Catalog} (before : SameEntries first second)
    (after : SameEntries second third) : SameEntries first third :=
  ⟨after.members.trans before.members, after.memberIndex.trans before.memberIndex⟩

theorem typeFor_sameEntries (reference : TypeReference) :
    SameEntries analysis.catalog (analysis.typeFor reference).2.catalog := by
  cases known : analysis.catalog.typeNamed? reference.fullName with
  | some id => rw [typeFor_of_known known]; exact ⟨rfl, rfl⟩
  | none => rw [(typeFor_of_fresh known).2]; exact ⟨rfl, rfl⟩

theorem typesFor_sameEntries (references : List TypeReference) :
    SameEntries analysis.catalog (analysis.typesFor references).2.catalog := by
  induction references generalizing analysis with
  | nil => exact ⟨rfl, rfl⟩
  | cons reference rest ih =>
      exact (typeFor_sameEntries reference).trans ih

theorem loadTypes_sameEntries (definitions : List (String × TypeDefinition)) :
    SameEntries analysis.catalog (analysis.loadTypes definitions).2.catalog := by
  induction definitions generalizing analysis with
  | nil => exact ⟨rfl, rfl⟩
  | cons given rest ih =>
      have first : SameEntries analysis.catalog (analysis.loadType given.1 given.2).2.catalog := by
        cases defined : isDefined analysis.catalog given.2.fullName with
        | true => rw [(loadType_of_defined defined given.1).2]; exact ⟨rfl, rfl⟩
        | false =>
            rw [(loadType_of_undefined defined given.1).2]
            unfold Catalog.defineType
            split <;> exact ⟨rfl, rfl⟩
      exact first.trans ih

/-- What a new catalog has beside the old one: a single member, under a name of its own. -/
structure Enters (old new : Catalog) (name : String) (member : Member) : Prop where
  memberNamed? : ∀ other, new.memberNamed? other =
    if name = other then some ⟨old.members.size⟩ else old.memberNamed? other
  member? : ∀ id, new.member? id =
    if id.index = old.members.size then some member else old.member? id

theorem SameEntries.memberNamed? {old new : Catalog} (same : SameEntries old new) (name : String) :
    new.memberNamed? name = old.memberNamed? name := by
  simp only [Catalog.memberNamed?, same.memberIndex]

theorem Enters.of_sameEntries {old typed new : Catalog} {name : String} {member : Member}
    (same : SameEntries old typed) (enters : Enters typed new name member) :
    Enters old new name member := by
  constructor
  · intro other
    rw [enters.memberNamed?, same.members, same.memberNamed?]
  · intro id
    rw [enters.member?]
    simp only [Catalog.member?, same.members]

theorem Enters.members {old new : Catalog} {name : String} {member : Member}
    (enters : Enters old new name member) : new.members = old.members.push member := by
  apply Array.ext_getElem?
  intro index
  rw [Array.getElem?_push]
  exact enters.member? ⟨index⟩

theorem addMember_enters {catalog : Catalog} {key : String}
    (fresh : catalog.memberNamed? key = none) (make : MemberId → Member) :
    Enters catalog (catalog.addMember key make).2 key (make ⟨catalog.members.size⟩) :=
  ⟨memberNamed?_addMember make fresh, member?_addMember make fresh⟩

theorem addTyped_enters {catalog : Catalog} {key : String}
    (fresh : catalog.memberNamed? key = none) (make : MemberId → Member) (use : TypeUse)
    (target : TypeId) :
    let member := make ⟨catalog.members.size⟩
    Enters catalog (addTyped catalog key make use target) key
      { member with dependencies := member.dependencies ++
          [Dependency.onType use ⟨catalog.members.size⟩ target] } := by
  intro member
  constructor
  · intro other
    simp only [addTyped, Catalog.addDependencies, memberNamed?_updateMember]
    exact memberNamed?_addMember make fresh other
  · rintro ⟨index⟩
    simp only [addTyped, Catalog.addDependencies, member?_updateMember, addMember_fst make fresh,
      member?_addMember make fresh, MemberId.mk.injEq]
    by_cases atEnd : index = catalog.members.size
    · simp [atEnd, member]
    · simp [atEnd, Ne.symm atEnd]

structure Matches (on : TypeId) (definition : MemberDefinition) (member : Member) : Prop where
  declaringType : member.declaringType = on
  isMethod : member.isMethod = definition.isMethod
  isStub : member.isStub = false
  count : member.dependencies.size = definition.initialCount

/-- The entry that a definition gives on the type `on`. A field or property depends on its type. -/
inductive IsEntry (on : TypeId) : MemberDefinition → Member → Prop where
  | field (definition : FieldDefinition) (target : TypeId) (id : MemberId) :
      IsEntry on (.field definition)
        { fieldEntry on target definition id with dependencies := #[.onType .field id target] }
  | method (definition : MethodDefinition) (returnType : TypeId)
      (parameters genericParameters : List TypeId) (id : MemberId) :
      IsEntry on (.method definition)
        (methodEntry on returnType parameters genericParameters definition id)
  | property (definition : PropertyDefinition) (target : TypeId) (getter setter : Option MemberId)
      (id : MemberId) :
      IsEntry on (.property definition)
        { propertyEntry on target getter setter definition id with
          dependencies := #[.onType .property id target] }

section IsEntry

variable {on : TypeId} {definition : MemberDefinition} {member : Member}

theorem IsEntry.fullName (isEntry : IsEntry on definition member) :
    member.fullName = definition.fullName := by
  cases isEntry <;> rfl

theorem IsEntry.matches (isEntry : IsEntry on definition member) :
    Matches on definition member := by
  cases isEntry <;> exact ⟨rfl, rfl, rfl, rfl⟩

end IsEntry

theorem loadMember_of_fresh {definition : MemberDefinition}
    (fresh : analysis.catalog.memberNamed? definition.fullName = none) (on : TypeId) :
    ∃ member, IsEntry on definition member ∧ Enters analysis.catalog
      (analysis.loadMember on definition).catalog definition.fullName member := by
  cases definition with
  | field definition =>
      have typed : SameEntries analysis.catalog _ := typeFor_sameEntries definition.fieldType
      have typedFresh := (typed.memberNamed? _).trans fresh
      rw [show (analysis.loadMember on (.field definition)).catalog = _ from
        loadField_of_fresh fresh on]
      refine ⟨_, ?_, .of_sameEntries typed (addTyped_enters typedFresh _ _ _)⟩
      exact .field definition _ _
  | method definition =>
      have withReturn : SameEntries analysis.catalog _ := typeFor_sameEntries definition.returnType
      have withParameters := withReturn.trans (typesFor_sameEntries definition.parameters)
      have typed := withParameters.trans (typesFor_sameEntries definition.genericParameters)
      have typedFresh := (typed.memberNamed? _).trans fresh
      rw [show (analysis.loadMember on (.method definition)).catalog = _ from
        loadMethod_of_fresh fresh on]
      refine ⟨_, ?_, .of_sameEntries typed (addMember_enters typedFresh _)⟩
      exact .method definition _ _ _ _
  | property definition =>
      have typed : SameEntries analysis.catalog _ := typeFor_sameEntries definition.propertyType
      have typedFresh := (typed.memberNamed? _).trans fresh
      rw [show (analysis.loadMember on (.property definition)).catalog = _ from
        loadProperty_of_fresh fresh on]
      refine ⟨_, ?_, .of_sameEntries typed (addTyped_enters typedFresh _ _ _)⟩
      exact .property definition _ _ _ _

/-! ### Which types are defined -/

private theorem isDefined_of_addStubType {catalog : Catalog} {reference : TypeReference}
    {name : String}
    (defined : isDefined (catalog.addStubType reference).2 name) : isDefined catalog name := by
  obtain ⟨on, named, later, found, notStub⟩ := isDefined_iff.mp defined
  rcases (type?_addType_iff ..).mp found with ⟨_, rfl⟩ | before
  · cases notStub
  · rw [addStubType, typeNamed?_addType] at named
    split at named
    · cases named
      simp [type?] at before
    · exact isDefined_iff.mpr ⟨on, named, later, before, notStub⟩

private theorem isDefined_of_addMember {catalog : Catalog} {key : String} {make : MemberId → Member}
    {name : String} (defined : isDefined (catalog.addMember key make).2 name) :
    isDefined catalog name := by
  cases fresh : catalog.memberNamed? key with
  | some id => rwa [addMember_of_known make fresh] at defined
  | none =>
      obtain ⟨on, named, later, found, notStub⟩ := isDefined_iff.mp defined
      obtain ⟨entry, before, rfl⟩ := type?_addMember_before make fresh found
      rw [typeNamed?_addMember] at named
      exact isDefined_iff.mpr ⟨on, named, entry, before, notStub⟩

private theorem isDefined_of_foldl_loadMembers {loaded : List LoadedType} {name : String}
    (defined : isDefined (loaded.foldl loadMembers analysis).catalog name) :
    isDefined analysis.catalog name := by
  have kept : KeptByLoading fun later => isDefined later name → isDefined analysis.catalog name := by
    constructor
    · intro catalog reference _ before defined
      exact before (isDefined_of_addStubType defined)
    · intro catalog key make _ before defined
      exact before (isDefined_of_addMember defined)
    · intro catalog id dependencies before defined
      exact before defined
  exact kept.foldl_loadMembers id loaded defined

/-! ### Which members there are -/

/-- What entering one more member keeps, for the definitions that were met so far. -/
def KeptByMember (motive : Catalog → List (String × MemberDefinition) → Prop) : Prop :=
  ∀ {analysis : Analysis} {on : TypeId} {typeName : String}
    {done : List (String × MemberDefinition)} (definition : MemberDefinition),
    analysis.catalog.WellFormed → analysis.catalog.Names typeName on →
    motive analysis.catalog done →
    motive (analysis.loadMember on definition).catalog (done ++ [(typeName, definition)])

namespace KeptByMember

variable {motive : Catalog → List (String × MemberDefinition) → Prop} (kept : KeptByMember motive)
  {done : List (String × MemberDefinition)}
include kept

theorem loadMembers (formed : analysis.catalog.WellFormed) {loaded : LoadedType}
    (names : analysis.catalog.Names loaded.2.fullName loaded.1)
    (before : motive analysis.catalog done) :
    motive (analysis.loadMembers loaded).catalog
      (done ++ loaded.2.memberDefinitions.map fun member => (loaded.2.fullName, member)) := by
  rw [loadMembers_catalog]
  generalize loaded.2.memberDefinitions = definitions
  induction definitions generalizing analysis done with
  | nil => simpa using before
  | cons definition rest ih =>
      obtain ⟨entry, typeFound, _⟩ := names.2
      have changes : Changes .existingOnly analysis.catalog
          (analysis.loadMember loaded.1 definition).catalog :=
        loadMember_changes formed (hasType_of_type? typeFound) definition
      have further := ih (changes.wellFormed formed) (changes.names names)
        (kept definition formed names before)
      simpa using further

theorem foldl_loadMembers (formed : analysis.catalog.WellFormed) {loaded : List LoadedType}
    (names : ∀ one ∈ loaded, analysis.catalog.Names one.2.fullName one.1)
    (before : motive analysis.catalog done) :
    motive (loaded.foldl Analysis.loadMembers analysis).catalog
      (done ++ (loaded.map (·.2)).flatMap fun definition =>
        definition.memberDefinitions.map fun member => (definition.fullName, member)) := by
  induction loaded generalizing analysis done with
  | nil => simpa using before
  | cons one rest ih =>
      have namesFirst := names one (by simp)
      obtain ⟨entry, typeFound, _⟩ := namesFirst.2
      have changes : Changes .existingOnly analysis.catalog (analysis.loadMembers one).catalog :=
        loadMembers_changes formed one (hasType_of_type? typeFound)
      have further := ih (changes.wellFormed formed)
        (fun other there => changes.names (names other (List.mem_cons_of_mem _ there)))
        (kept.loadMembers formed namesFirst before)
      simpa using further

end KeptByMember

/-- The members of a catalog are the first of each name among the definitions, each with the name of
its type. -/
structure Entered (catalog : Catalog) (done : List (String × MemberDefinition)) : Prop where
  found : ∀ {name entry}, done.find? (·.2.fullName = name) = some entry →
    ∃ id member, catalog.memberNamed? name = some id ∧ catalog.member? id = some member ∧
      catalog.Names entry.1 member.declaringType ∧
      Matches member.declaringType entry.2 member
  missing : ∀ {name}, done.find? (·.2.fullName = name) = none → catalog.memberNamed? name = none

theorem Entered.methodNamed? {catalog : Catalog} {done : List (String × MemberDefinition)}
    (entered : Entered catalog done) (formed : catalog.WellFormed) {typeName : String} {on : TypeId}
    (names : catalog.Names typeName on) (name : String) :
    (catalog.methodNamed? on name).isSome = declaresAmong done typeName name := by
  rw [declaresAmong, Bool.eq_iff_iff, Option.isSome_iff_exists]
  cases first : done.find? (·.2.fullName = name) with
  | none => simp [methodNamed?_eq_some_iff, entered.missing first]
  | some definition =>
      obtain ⟨id, member, named, found, declared, isMatch⟩ := entered.found first
      have sameType := formed.typeNamed?_inj declared.1 names.1
      simp [methodNamed?_eq_some_iff, named, found, isMatch.isMethod, sameType]

/-- The members of a catalog, by id, are the first of each name among the definitions. -/
def MembersInOrder (catalog : Catalog) (done : List (String × MemberDefinition)) : Prop :=
  List.Forall₂
    (fun given member => catalog.Names given.1 member.declaringType ∧
      IsEntry member.declaringType given.2 member)
    (firstOf (·.2.fullName) done) catalog.members.toList

namespace MembersInOrder

variable {catalog : Catalog} {done : List (String × MemberDefinition)}

theorem names (entered : MembersInOrder catalog done) :
    catalog.members.toList.map (·.fullName) = (firstOf (·.2.fullName) done).map (·.2.fullName) := by
  unfold MembersInOrder at entered
  generalize catalog.members.toList = members, firstOf (·.2.fullName) done = definitions
    at entered ⊢
  induction entered with
  | nil => rfl
  | cons first _ ih => rw [List.map_cons, List.map_cons, first.2.fullName, ih]

theorem memberNamed? (entered : MembersInOrder catalog done) (formed : catalog.WellFormed)
    (name : String) : (catalog.memberNamed? name).isSome = done.any (·.2.fullName = name) := by
  have there : (firstOf (·.2.fullName) done).any (·.2.fullName = name) ↔
      name ∈ catalog.members.toList.map (·.fullName) := by
    rw [entered.names]
    simp
  rw [← any_firstOf, Bool.eq_iff_iff, Option.isSome_iff_exists, there, List.mem_map]
  constructor
  · rintro ⟨id, named⟩
    obtain ⟨member, found, fullName⟩ := formed.memberNamed?_iff.mp named
    exact ⟨member, Array.mem_toList_iff.mpr (Array.mem_of_getElem? found), fullName⟩
  · rintro ⟨member, listed, fullName⟩
    obtain ⟨index, found⟩ := List.getElem?_of_mem listed
    rw [Array.getElem?_toList] at found
    exact ⟨⟨index⟩, formed.memberNamed?_iff.mpr ⟨member, found, fullName⟩⟩

theorem entered (inOrder : MembersInOrder catalog done) (formed : catalog.WellFormed) :
    Entered catalog done := by
  constructor
  · intro name given first
    rw [← find?_firstOf] at first
    obtain ⟨index, inRange, here⟩ := List.getElem_of_mem (List.mem_of_find?_eq_some first)
    obtain ⟨length, related⟩ := List.forall₂_iff_get.mp inOrder
    have inRangeToo : index < catalog.members.toList.length := length ▸ inRange
    have relation := related index inRange inRangeToo
    rw [List.get_eq_getElem, List.get_eq_getElem, here] at relation
    have found : catalog.member? ⟨index⟩ = some catalog.members.toList[index] := by
      rw [Catalog.member?, ← Array.getElem?_toList, List.getElem?_eq_getElem]
    refine ⟨⟨index⟩, _, formed.memberNamed?_iff.mpr ⟨_, found, ?_⟩, found, relation.1,
      relation.2.matches⟩
    rw [relation.2.fullName]
    simpa using List.find?_some first
  · intro name missing
    have unknown := inOrder.memberNamed? formed name
    rw [← List.isSome_find?, missing] at unknown
    simpa using unknown

theorem keptByMember : KeptByMember MembersInOrder := by
  intro analysis on typeName done definition formed names entered
  obtain ⟨entry, typeFound, _⟩ := names.2
  have changes : Changes .existingOnly analysis.catalog
      (analysis.loadMember on definition).catalog :=
    loadMember_changes formed (hasType_of_type? typeFound) definition
  have known := entered.memberNamed? formed definition.fullName
  unfold MembersInOrder
  rw [firstOf_concat]
  cases named : analysis.catalog.memberNamed? definition.fullName with
  | some id =>
      rw [named] at known
      rw [loadMember_of_known named, ← known]
      simpa [MembersInOrder] using entered
  | none =>
      rw [named] at known
      obtain ⟨member, isEntry, enters⟩ := loadMember_of_fresh named on
      rw [← known, enters.members, Array.toList_push]
      refine List.rel_append (entered.imp fun given other before => ?_) (.cons ?_ .nil)
      · exact ⟨changes.names before.1, before.2⟩
      · rw [isEntry.matches.declaringType]
        exact ⟨changes.names names, isEntry⟩

end MembersInOrder

/-! ## The whole pass -/

section Allocated

variable (metadata : Metadata)

private theorem typesLoaded_wellFormed : (typesLoaded metadata).2.catalog.WellFormed := by
  have changes : Changes .existingOnly ({} : Analysis).catalog (typesLoaded metadata).2.catalog :=
    loadTypes_changes _
  exact changes.wellFormed wellFormed_empty

theorem allocated_wellFormed : (allocate {} metadata).2.catalog.WellFormed := by
  have changes : Changes .existingOnly _ _ := allocated_changes metadata
  exact changes.wellFormed wellFormed_empty

theorem extracted_grows (options : Options) :
    Grows options.callPolicy (allocate {} metadata).2.catalog
      ((allocate {} metadata).2.extractTypes options (allocate {} metadata).1).2.catalog :=
  extractTypes_grows (allocated_wellFormed metadata).sound _

theorem allocated_paired : (allocate {} metadata).2.catalog.Paired := by
  have changes : Changes .existingOnly _ _ := allocated_changes metadata
  have relinked : Relinkings True _ _ := changes.relinkings
  exact relinked.paired paired_empty

theorem allocated_loaded :
    (allocate {} metadata).1.map (·.2) = firstOf (·.fullName) metadata.definitions := by
  rw [metadata.definitions_eq, metadata.namedDefinitions_eq]
  have loaded : (loadTypes {} (typeDefinitions metadata)).1.map (·.2) = _ :=
    loadTypes_loaded wellFormed_empty (typeDefinitions metadata)
  refine loaded.trans (List.filter_eq_self.mpr fun definition _ => ?_)
  simp [isDefined, Catalog.empty, typeNamed?]

theorem typesLoaded_names : ∀ loaded ∈ (typesLoaded metadata).1,
    (typesLoaded metadata).2.catalog.Names loaded.2.fullName loaded.1 :=
  loadTypes_names wellFormed_empty (typeDefinitions metadata)

private theorem typesLoaded_allocated : Changes .existingOnly (typesLoaded metadata).2.catalog
    (allocate {} metadata).2.catalog :=
  foldl_loadMembers_changes (typesLoaded_wellFormed metadata) _
    (loadTypes_known wellFormed_empty (typeDefinitions metadata))

theorem allocated_names : ∀ loaded ∈ (allocate {} metadata).1,
    (allocate {} metadata).2.catalog.Names loaded.2.fullName loaded.1 := by
  intro loaded there
  exact (typesLoaded_allocated metadata).names (typesLoaded_names metadata loaded there)

theorem typesLoaded_members : (typesLoaded metadata).2.catalog.members = #[] := by
  have same : SameEntries ({} : Analysis).catalog (typesLoaded metadata).2.catalog :=
    loadTypes_sameEntries _
  exact same.members

theorem KeptByMember.allocated {motive : Catalog → List (String × MemberDefinition) → Prop}
    (kept : KeptByMember motive) (start : motive (typesLoaded metadata).2.catalog []) :
    motive (allocate {} metadata).2.catalog metadata.memberDefinitions := by
  have all := kept.foldl_loadMembers (typesLoaded_wellFormed metadata) (typesLoaded_names metadata)
    start
  rw [List.nil_append, show (typesLoaded metadata).1.map (·.2) = _ from allocated_loaded metadata]
    at all
  exact all

theorem membersInOrder_start : MembersInOrder (typesLoaded metadata).2.catalog [] := by
  rw [MembersInOrder, typesLoaded_members]
  exact .nil

theorem allocated_membersInOrder :
    MembersInOrder (allocate {} metadata).2.catalog metadata.memberDefinitions :=
  MembersInOrder.keptByMember.allocated metadata (membersInOrder_start metadata)

theorem allocated_entered :
    Entered (allocate {} metadata).2.catalog metadata.memberDefinitions :=
  (allocated_membersInOrder metadata).entered (allocated_wellFormed metadata)

theorem allocated_isDefined (name : String) :
    isDefined (allocate {} metadata).2.catalog name = metadata.defines name := by
  have typed : isDefined (typesLoaded metadata).2.catalog name ↔ metadata.defines name := by
    have either : isDefined (typesLoaded metadata).2.catalog name ↔ _ :=
      loadTypes_isDefined wellFormed_empty (typeDefinitions metadata) name
    rw [either]
    simp [isDefined, Catalog.empty, typeNamed?, Metadata.defines, Metadata.definitions_eq,
      Metadata.namedDefinitions_eq]
  rw [Bool.eq_iff_iff, ← typed]
  constructor
  · exact isDefined_of_foldl_loadMembers
  · intro defined
    obtain ⟨on, names⟩ := isDefined_iff.mp defined
    exact isDefined_iff.mpr ⟨on, (typesLoaded_allocated metadata).names names⟩

/-- A member that is there is as the first definition of its name says. -/
theorem allocated_member {id : MemberId} {member : Member}
    (found : (allocate {} metadata).2.catalog.member? id = some member) :
    ∃ entry, metadata.memberDefinitions.find? (·.2.fullName = member.fullName) = some entry ∧
      (allocate {} metadata).2.catalog.Names entry.1 member.declaringType ∧
      Matches member.declaringType entry.2 member := by
  have formed := allocated_wellFormed metadata
  have named := formed.memberNamed?_iff.mpr ⟨member, found, rfl⟩
  cases first : metadata.memberDefinitions.find? (·.2.fullName = member.fullName) with
  | none =>
      rw [(allocated_entered metadata).missing first] at named
      cases named
  | some entry =>
      obtain ⟨other, same, otherNamed, there, names, isMatch⟩ :=
        (allocated_entered metadata).found first
      rw [named] at otherNamed
      cases otherNamed
      rw [found] at there
      cases there
      exact ⟨entry, rfl, names, isMatch⟩

theorem allocated_fieldsOnce : FieldsOnce (allocate {} metadata).2.catalog := by
  intro id member found isField
  obtain ⟨entry, _, _, isMatch⟩ := allocated_member metadata found
  have one : member.dependencies.size = 1 := by
    rw [isMatch.count, MemberDefinition.initialCount_eq, ← isMatch.isMethod,
      Member.isMethod_of_isField isField, if_neg Bool.false_ne_true]
  simp [recordedCount, recordedDependencies, found, one]

theorem allocated_ready {loaded : LoadedType} (there : loaded ∈ (allocate {} metadata).1) :
    Ready (allocate {} metadata).2.catalog loaded.1 :=
  ⟨allocated_wellFormed metadata, allocated_paired metadata,
    (allocated_names metadata loaded there).2, allocated_fieldsOnce metadata⟩

end Allocated

end Analysis

end MemberGraph
