import MemberGraph.Proofs.NamedArchitecture

/-!
The journal as an account of an analysis. Every stub type is told of, in the order of ids, and every
definition that is left out because its name is taken. The journal is compared with the catalog and
with what was given, after each step and so after a whole analysis.
-/

set_option autoImplicit false

namespace MemberGraph

/-! ## Values that repeat a name -/

section Repeated

variable {α : Type}

/-- The values in order, each with those before it. -/
def withEarlier (values : List α) : List (List α × α) :=
  values.mapIdx fun index value => (values.take index, value)

def isRepeated (name : α → String) (given : List α × α) : Bool :=
  given.1.any (name · = name given.2)

def repeatedNames (name : α → String) (values : List α) : List String :=
  ((withEarlier values).filter (isRepeated name)).map (name ·.2)

theorem withEarlier_concat (values : List α) (value : α) :
    withEarlier (values ++ [value]) = withEarlier values ++ [(values, value)] := by
  have before : values.mapIdx (fun index other => ((values ++ [value]).take index, other)) =
      withEarlier values := by
    refine List.mapIdx_eq_mapIdx_iff.mpr fun index inRange => ?_
    rw [List.take_append_of_le_length (Nat.le_of_lt inRange)]
  rw [withEarlier, List.mapIdx_concat, before, List.take_left]

private theorem length_withEarlier (values : List α) :
    (withEarlier values).length = values.length :=
  List.length_mapIdx

theorem mem_withEarlier {values earlier : List α} {value : α}
    (there : (earlier, value) ∈ withEarlier values) : earlier ⊆ values ∧ value ∈ values := by
  obtain ⟨index, inRange, same⟩ := List.mem_mapIdx.mp there
  cases same
  exact ⟨List.take_subset index values, List.getElem_mem inRange⟩

variable {name : α → String}

theorem repeatedNames_concat (values : List α) (value : α) :
    repeatedNames name (values ++ [value]) = repeatedNames name values ++
      if values.any (name · = name value) then [name value] else [] := by
  simp only [repeatedNames, withEarlier_concat, List.filter_append, List.map_append,
    List.filter_singleton, isRepeated]
  cases values.any (name · = name value) <;> rfl

private theorem firstOf_eq_unrepeated (values : List α) :
    firstOf name values = ((withEarlier values).filter (!isRepeated name ·)).map (·.2) := by
  induction values using List.reverseRecOn with
  | nil => rfl
  | append_singleton values value ih =>
      simp only [firstOf_concat, withEarlier_concat, List.filter_append, List.map_append,
        List.filter_singleton, ih, isRepeated]
      cases values.any (name · = name value) <;> rfl

private theorem firstOf_map {β : Type} (view : β → α) (values : List β) :
    firstOf name (values.map view) = (firstOf (name <| view ·) values).map view := by
  induction values with
  | nil => rfl
  | cons value rest ih => simp only [List.map_cons, firstOf, ih, List.filter_map]; rfl

end Repeated

private theorem forall₂_getElem? {α β : Type} {relation : α → β → Prop} {values : List α}
    {entries : List β} (related : List.Forall₂ relation values entries) {index : Nat} {value : α}
    (found : values[index]? = some value) :
    ∃ entry, entries[index]? = some entry ∧ relation value entry := by
  induction related generalizing index with
  | nil => simp at found
  | cons first _ ih =>
      cases index with
      | zero =>
          cases found
          exact ⟨_, rfl, first⟩
      | succ index => exact ih found

private theorem forall₂_filter {α β : Type} {relation : α → β → Prop} {check : β → Bool}
    {values : List α} {entries : List β}
    (first : ∀ (index : Nat) (value : α), values[index]? = some value →
      ∃ entry, entries[index]? = some entry ∧ check entry ∧ relation value entry)
    (rest : ∀ (index : Nat) (entry : β), entries[index]? = some entry → values.length ≤ index →
      check entry = false) :
    List.Forall₂ relation values (entries.filter check) := by
  induction values generalizing entries with
  | nil =>
      rw [List.filter_eq_nil_iff.mpr]
      · exact .nil
      · intro entry there
        obtain ⟨index, found⟩ := List.getElem?_of_mem there
        simp [rest index entry found (Nat.zero_le _)]
  | cons value values ih =>
      obtain ⟨entry, found, passes, related⟩ := first 0 value rfl
      cases entries with
      | nil => cases found
      | cons other entries =>
          cases found
          rw [List.filter_cons_of_pos passes]
          refine .cons related (ih (fun index => ?_) fun index entry there later => ?_)
          · exact first (index + 1)
          · exact rest (index + 1) entry there (Nat.succ_le_succ later)

/-! ## Members and their definitions -/

namespace MemberDefinition

def name : MemberDefinition → String
  | field definition => definition.name
  | method definition => definition.name
  | property definition => definition.name

def sort : MemberDefinition → MemberSort
  | field _ => .field
  | method _ => .method
  | property _ => .property

end MemberDefinition

structure Catalog.StandsFor (catalog : Catalog) (given : String × MemberDefinition)
    (member : Member) : Prop where
  sort : member.role.sort = given.2.sort
  name : member.name = given.2.name
  fullName : member.fullName = given.2.fullName
  defined : member.isStub = false
  declared : catalog.Names given.1 member.declaringType

/-! ## Events by message -/

/-- Whether an event tells neither of a stub type nor of a definition that is left out. -/
def Event.isRoutine : Event → Bool
  | .stubTypeCreated _ | .duplicateType _ | .duplicateMember _ => false
  | _ => true

private theorem Event.message_of_isRoutine {event : Event} (routine : event.isRoutine) :
    event.message ≠ "Creating stub type" ∧ event.message ≠ "Duplicate type definition ignored" ∧
      event.message ≠ "Duplicate member definition ignored" := by
  cases event <;> simp_all [isRoutine, message]

namespace Journal

def saying (journal : Journal) (message : String) : List Event :=
  journal.toList.filter (·.message = message)

/-- What is told under a message: the levels and the fields of the events, in order. -/
def told (journal : Journal) (message : String) :
    List (EventLevel × List (String × EventValue)) :=
  (journal.saying message).map fun event => (event.level, event.fields)

theorem saying_push (journal : Journal) (event : Event) (message : String) :
    saying (journal.push event) message =
      journal.saying message ++ if event.message = message then [event] else [] := by
  simp only [saying, Array.toList_push, List.filter_append, List.filter_singleton,
    Bool.cond_decide]

end Journal

/-! ## Stub types of a catalog -/

namespace Catalog

def stubTypes (catalog : Catalog) : List String :=
  (catalog.types.toList.filter (·.isStub)).map (·.fullName)

variable {catalog old new : Catalog}

theorem stubTypes_congr
    (same : ∀ id, (new.type? id).map (fun entry => (entry.fullName, entry.isStub)) =
      (old.type? id).map fun entry => (entry.fullName, entry.isStub)) :
    new.stubTypes = old.stubTypes := by
  have marks : new.types.toList.map (fun entry => (entry.fullName, entry.isStub)) =
      old.types.toList.map fun entry => (entry.fullName, entry.isStub) := by
    apply List.ext_getElem?
    intro index
    simpa [Catalog.type?] using same ⟨index⟩
  have named : ∀ catalog : Catalog, catalog.stubTypes =
      ((catalog.types.toList.map fun entry => (entry.fullName, entry.isStub)).filter (·.2)).map
        (·.1) := by
    intro catalog
    rw [List.filter_map, List.map_map]
    rfl
  rw [named, named, marks]

private theorem stubTypes_addStubType (reference : TypeReference) :
    (catalog.addStubType reference).2.stubTypes = catalog.stubTypes ++ [reference.fullName] := by
  simp [stubTypes, addStubType, addType, List.filter_append]

private theorem stubTypes_defineType {reference : TypeReference}
    (fresh : catalog.typeNamed? reference.fullName = none) (kind : TypeKind)
    (visibility : Visibility) :
    (catalog.defineType reference kind visibility).2.stubTypes = catalog.stubTypes := by
  simp [stubTypes, defineType, fresh, addType, List.filter_append]

theorem stubTypes_addMember (key : String) (make : MemberId → Member) :
    (catalog.addMember key make).2.stubTypes = catalog.stubTypes := by
  cases fresh : catalog.memberNamed? key with
  | some id => rw [addMember_of_known make fresh]
  | none =>
      refine stubTypes_congr fun id => ?_
      rw [type?_addMember make fresh]
      split
      · rw [Option.map_map]
        rfl
      · rfl

private theorem stubTypes_linkBacking (property field : MemberId) :
    (catalog.linkBacking property field).2.stubTypes = catalog.stubTypes :=
  stubTypes_congr fun id => by rw [type?_linkBacking]

private theorem stubTypes_linkBackwards :
    catalog.linkBackwards.2.stubTypes = catalog.stubTypes := by
  have mirrors : catalog.Mirrors _ catalog.linkBackwards.2 := linkBackwards_mirrors
  refine stubTypes_congr fun id => ?_
  rw [mirrors.type?, Option.map_map]
  rfl

end Catalog

namespace Analysis

open Catalog

/-! ## Steps -/

/-- The journal tells of the stub types of the catalog, and of definitions of these types and members
that were left out. -/
structure Faithful (analysis : Analysis) (types members : List String) : Prop where
  stubs : analysis.journal.saying "Creating stub type" =
    analysis.catalog.stubTypes.map .stubTypeCreated
  types : analysis.journal.saying "Duplicate type definition ignored" = types.map .duplicateType
  members : analysis.journal.saying "Duplicate member definition ignored" =
    members.map .duplicateMember

private theorem stubTypes_addTyped {catalog : Catalog} (key : String) (make : MemberId → Member)
    (use : TypeUse) (target : TypeId) :
    (addTyped catalog key make use target).stubTypes = catalog.stubTypes :=
  stubTypes_addMember key make

namespace Faithful

variable {analysis : Analysis} {types members : List String}
  (faithful : Faithful analysis types members)
include faithful

theorem note {event : Event} (routine : event.isRoutine) :
    Faithful (analysis.note event) types members := by
  obtain ⟨notStub, notType, notMember⟩ := Event.message_of_isRoutine routine
  constructor
  · rw [Analysis.note, Journal.saying_push, if_neg notStub, List.append_nil]
    exact faithful.stubs
  · rw [Analysis.note, Journal.saying_push, if_neg notType, List.append_nil]
    exact faithful.types
  · rw [Analysis.note, Journal.saying_push, if_neg notMember, List.append_nil]
    exact faithful.members

private theorem noteType (name : String) :
    Faithful (analysis.note (.duplicateType name)) (types ++ [name]) members := by
  constructor <;> simp [Analysis.note, Journal.saying_push, Event.message, faithful.stubs,
    faithful.types, faithful.members]

private theorem noteMember (name : String) :
    Faithful (analysis.note (.duplicateMember name)) types (members ++ [name]) := by
  constructor <;> simp [Analysis.note, Journal.saying_push, Event.message, faithful.stubs,
    faithful.types, faithful.members]

theorem withCatalog {catalog : Catalog}
    (same : catalog.stubTypes = analysis.catalog.stubTypes) :
    Faithful { analysis with catalog } types members :=
  ⟨faithful.stubs.trans (congrArg _ same.symm), faithful.types, faithful.members⟩

theorem record (id : MemberId)
    (dependencies : List Dependency) :
    Faithful (analysis.updateCatalog (·.addDependencies id dependencies)) types members :=
  faithful.withCatalog rfl

theorem typeFor (reference : TypeReference) :
    Faithful (analysis.typeFor reference).2 types members := by
  unfold Analysis.typeFor
  split
  · exact faithful
  · constructor <;> simp [Analysis.note, Journal.saying_push, Event.message, faithful.stubs,
      faithful.types, faithful.members, stubTypes_addStubType]

theorem typesFor (references : List TypeReference) :
    Faithful (analysis.typesFor references).2 types members := by
  induction references generalizing analysis with
  | nil => exact faithful
  | cons reference rest ih => exact ih (faithful.typeFor reference)

theorem methodFor (on : TypeId)
    (reference : MethodReference) : Faithful (analysis.methodFor on reference).2 types members := by
  unfold Analysis.methodFor
  split
  · exact faithful
  · have typed := (faithful.typeFor reference.returnType).typesFor reference.parameters
    exact .withCatalog (.note typed rfl) (stubTypes_addMember _ _)

theorem resolve (policy : CallPolicy)
    (reference : MethodReference) :
    Faithful (analysis.resolve policy reference).2 types members := by
  have typed := faithful.typeFor reference.declaringType
  unfold Analysis.resolve
  dsimp only
  split
  · exact typed
  · split
    · exact typed.methodFor _ reference
    · exact typed.note rfl

theorem resolveAll (policy : CallPolicy)
    (references : List MethodReference) :
    Faithful (analysis.resolveAll policy references).2 types members := by
  induction references generalizing analysis with
  | nil => exact faithful
  | cons reference rest ih => exact ih (faithful.resolve policy reference)

/-! ### Properties -/

theorem propertyByName (on : TypeId)
    (fullName candidate : String) :
    Faithful (analysis.propertyByName on fullName candidate).2 types members := by
  unfold Analysis.propertyByName
  split
  · exact faithful
  · exact faithful
  · exact faithful.note rfl

theorem propertyByEnding (on : TypeId)
    (fullName candidate : String) :
    Faithful (analysis.propertyByEnding on fullName candidate).2 types members := by
  unfold Analysis.propertyByEnding
  split
  · exact faithful
  · exact faithful
  · exact faithful.note rfl

theorem propertyOf (on : TypeId)
    (convention : Convention) (name fullName : String) :
    Faithful (analysis.propertyOf on convention name fullName).2 types members := by
  unfold Analysis.propertyOf
  cases convention.property? name with
  | none =>
      dsimp only
      split
      · exact faithful
      · exact faithful.propertyByEnding on fullName _
      · exact faithful
  | some candidate =>
      have byName := faithful.propertyByName on fullName candidate
      dsimp only
      split
      · exact byName
      · exact byName.propertyByEnding on fullName _
      · exact byName

theorem linkStorage (on : TypeId)
    (property : MemberId) (body : MethodBody) :
    Faithful (analysis.updateCatalog (Analysis.linkStorage · on property body)) types members := by
  refine faithful.withCatalog ?_
  unfold Analysis.linkStorage
  dsimp only
  split
  · exact stubTypes_linkBacking _ _
  · rfl

theorem linkAccessor (policy : CallPolicy)
    (on : TypeId) (property method : MemberId) (definition : MethodDefinition)
    (body : MethodBody) :
    Faithful (analysis.linkAccessor policy on property method definition body).2 types members := by
  have stored := (faithful.resolveAll policy (calledMethods body)).linkStorage on property body
  unfold Analysis.linkAccessor
  dsimp only
  -- The first split is on the form, which decides only which accessor gets the dependencies.
  split <;> split
  · refine note ?_ rfl
    exact stored.withCatalog rfl
  · exact stored
  · refine note ?_ rfl
    exact stored.withCatalog rfl
  · exact stored

theorem tieAccessor (policy : CallPolicy)
    (on : TypeId) (method : MemberId) (definition : MethodDefinition) :
    Faithful (analysis.tieAccessor policy on method definition).2 types members := by
  unfold Analysis.tieAccessor
  split
  · exact faithful
  · exact faithful
  · next convention body _ _ =>
      have searched := faithful.propertyOf on convention definition.name definition.fullName
      generalize analysis.propertyOf on convention definition.name definition.fullName = outcome
        at searched ⊢
      rcases outcome with ⟨none | property, later⟩
      · exact searched.note rfl
      · exact searched.linkAccessor policy on property method definition body

theorem attachCall (policy : CallPolicy)
    (on : TypeId) (reference : MethodReference) (field : FieldReference) :
    Faithful (analysis.attachCall policy on reference field).2 types members := by
  have searched := faithful.propertyOf on .field field.name field.fullName
  unfold Analysis.attachCall
  generalize analysis.propertyOf on .field field.name field.fullName = outcome at searched ⊢
  rcases outcome with ⟨none | property, later⟩
  · exact searched
  · have resolved := searched.resolve policy reference
    dsimp only at resolved ⊢
    generalize later.resolve policy reference = answer at resolved ⊢
    rcases answer with ⟨none | target, last⟩
    · exact resolved
    · exact resolved.record property _

theorem attachCalls (policy : CallPolicy)
    (on : TypeId) (calls : List (MethodReference × FieldReference)) :
    Faithful (analysis.attachCalls policy on calls).2 types members := by
  induction calls generalizing analysis with
  | nil => exact faithful
  | cons call rest ih => exact ih (faithful.attachCall policy on call.1 call.2)

theorem attachStoredCalls (policy : CallPolicy)
    (on : TypeId) (body : MethodBody) :
    Faithful (analysis.attachStoredCalls policy on body).2 types members := by
  unfold Analysis.attachStoredCalls
  split
  · exact faithful.attachCalls policy on _
  · exact faithful

/-! ### Methods -/

theorem methodCalls (options : Options) (on : TypeId)
    (id : MemberId) (method : MethodDefinition) :
    Faithful (analysis.methodCalls options on id method).2 types members := by
  unfold Analysis.methodCalls
  split
  · exact faithful
  · next body _ =>
      split
      · have tied := faithful.tieAccessor options.callPolicy on id method
        generalize analysis.tieAccessor options.callPolicy on id method = outcome at tied ⊢
        rcases outcome with ⟨error | link, later⟩
        · exact tied.note rfl
        · exact tied
      · exact (faithful.attachStoredCalls options.callPolicy on body).resolveAll _ _

theorem extractKnownMethod (options : Options)
    (on : TypeId) (id : MemberId) (method : MethodDefinition) :
    Faithful (analysis.extractKnownMethod options on id method).2 types members := by
  have used : Faithful ((analysis.signatureUses id method).2.bodyUses id method.body).2 types
      members := (faithful.typesFor method.signatureTypes).typesFor
        (method.body.elim [] MethodBody.usedTypes)
  have called := used.methodCalls options on id method
  unfold Analysis.extractKnownMethod
  dsimp only
  generalize ((analysis.signatureUses id method).2.bodyUses id method.body).2.methodCalls options on
    id method = outcome at called ⊢
  rcases outcome with ⟨error | ⟨calls, statistics⟩, later⟩
  · exact called
  · exact called.record id _

theorem extractMethod (options : Options)
    (on : TypeId) (method : MethodDefinition) :
    Faithful (analysis.extractMethod options on method).2 types members := by
  unfold Analysis.extractMethod
  split
  · exact faithful.extractKnownMethod options on _ method
  · exact faithful.note rfl

theorem extractMethods (options : Options)
    (on : TypeId) (methods : List MethodDefinition) :
    Faithful (analysis.extractMethods options on methods).2 types members := by
  induction methods generalizing analysis with
  | nil => exact faithful
  | cons method rest ih =>
      have first := faithful.extractMethod options on method
      unfold Analysis.extractMethods
      generalize analysis.extractMethod options on method = outcome at first ⊢
      rcases outcome with ⟨error | statistics, later⟩
      · exact first
      · have others := ih first
        dsimp only at others ⊢
        generalize later.extractMethods options on rest = further at others ⊢
        rcases further with ⟨error | total, last⟩
        · exact others
        · exact others

theorem extractType (options : Options) (on : TypeId) (definition : TypeDefinition) :
    Faithful (analysis.extractType options on definition).2 types members := by
  have extracted := faithful.extractMethods options on definition.methods
  unfold Analysis.extractType
  generalize analysis.extractMethods options on definition.methods = outcome at extracted ⊢
  rcases outcome with ⟨error | statistics, later⟩
  · exact extracted
  · exact extracted.note rfl

theorem extractTypes (options : Options) (loaded : List LoadedType) :
    Faithful (analysis.extractTypes options loaded).2 types members := by
  induction loaded generalizing analysis with
  | nil => exact faithful
  | cons one rest ih =>
      have first := faithful.extractType options one.1 one.2
      unfold Analysis.extractTypes
      generalize analysis.extractType options one.1 one.2 = outcome at first ⊢
      rcases outcome with ⟨error | statistics, later⟩
      · exact first
      · have others := ih first
        dsimp only at others ⊢
        generalize later.extractTypes options rest = further at others ⊢
        rcases further with ⟨error | total, last⟩
        · exact others
        · exact others

theorem extractAll (options : Options) (loaded : List LoadedType) :
    Faithful (analysis.extractAll options loaded).2 types members := by
  have extracted := faithful.extractTypes options loaded
  unfold Analysis.extractAll
  generalize analysis.extractTypes options loaded = outcome at extracted ⊢
  rcases outcome with ⟨error | statistics, later⟩
  · exact extracted
  · exact extracted.note rfl

theorem turnAround (options : Options) :
    Faithful (analysis.turnAround options) types members := by
  unfold Analysis.turnAround
  split
  · exact .note (.withCatalog faithful stubTypes_linkBackwards) rfl
  · exact faithful

/-! ### Loading -/

theorem loadType_of_defined {definition : TypeDefinition}
    (defined : isDefined analysis.catalog definition.fullName) (assembly : String) :
    Faithful (analysis.loadType assembly definition).2 (types ++ [definition.fullName]) members := by
  have known : ((analysis.catalog.typeNamed? definition.fullName).bind
    analysis.catalog.type?).any (!·.isStub) := defined
  rw [Analysis.loadType, if_pos known]
  exact faithful.noteType definition.fullName

private theorem loadType_of_fresh {definition : TypeDefinition}
    (fresh : analysis.catalog.typeNamed? definition.fullName = none) (assembly : String) :
    Faithful (analysis.loadType assembly definition).2 types members := by
  have unknown : ¬ ((analysis.catalog.typeNamed? definition.fullName).bind
      analysis.catalog.type?).any (!·.isStub) := by
    simp [fresh]
  rw [Analysis.loadType, if_neg unknown]
  exact faithful.withCatalog (stubTypes_defineType fresh _ _)

theorem unlessKnown {fullName : String} {create : Analysis → Analysis}
    (created : Faithful (create analysis) types members) :
    Faithful (analysis.unlessKnown fullName create) types
      (members ++ if (analysis.catalog.memberNamed? fullName).isSome then [fullName] else []) := by
  unfold Analysis.unlessKnown
  cases analysis.catalog.memberNamed? fullName with
  | some id => exact faithful.noteMember fullName
  | none => simpa using created

theorem loadMember (on : TypeId) (definition : MemberDefinition) :
    Faithful (analysis.loadMember on definition) types
      (members ++ if (analysis.catalog.memberNamed? definition.fullName).isSome then
        [definition.fullName] else []) := by
  cases definition with
  | field definition =>
      unfold Analysis.loadMember loadField
      refine faithful.unlessKnown ?_
      exact (faithful.typeFor definition.fieldType).withCatalog
        (stubTypes_addTyped definition.fullName (fieldEntry on _ definition) .field _)
  | method definition =>
      unfold Analysis.loadMember loadMethod
      refine faithful.unlessKnown ?_
      have typed := ((faithful.typeFor definition.returnType).typesFor definition.parameters).typesFor
        definition.genericParameters
      exact typed.withCatalog (stubTypes_addMember _ _)
  | property definition =>
      unfold Analysis.loadMember loadProperty
      refine faithful.unlessKnown ?_
      exact (faithful.typeFor definition.propertyType).withCatalog
        (stubTypes_addTyped definition.fullName (propertyEntry on _ _ _ definition) .property _)

end Faithful

/-! ## Passes -/

structure TypesTold (analysis : Analysis) (done : List (String × TypeDefinition)) : Prop where
  formed : analysis.catalog.WellFormed
  inOrder : TypesInOrder analysis.catalog done
  faithful : Faithful analysis (repeatedNames (·.2.fullName) done) []

theorem TypesTold.loadType {analysis : Analysis} {done : List (String × TypeDefinition)}
    (told : TypesTold analysis done) (given : String × TypeDefinition) :
    TypesTold (analysis.loadType given.1 given.2).2 (done ++ [given]) := by
  have changes : Changes .existingOnly analysis.catalog
      (analysis.loadType given.1 given.2).2.catalog := loadType_changes given.1 given.2
  refine ⟨changes.wellFormed told.formed, told.inOrder.loadType told.formed given, ?_⟩
  -- There are no stubs yet, so a name that is known is that of a type that is defined.
  have known := told.inOrder.typeNamed? told.formed given.2.fullName
  have defined := (told.inOrder.isDefined told.formed given.2.fullName).trans known
  rw [repeatedNames_concat]
  cases before : done.any (·.2.fullName = given.2.fullName) with
  | true =>
      rw [before] at defined
      exact told.faithful.loadType_of_defined defined given.1
  | false =>
      rw [before] at known
      rw [if_neg Bool.false_ne_true, List.append_nil]
      exact told.faithful.loadType_of_fresh (by simpa using known) given.1

theorem TypesTold.loadTypes {analysis : Analysis} {done : List (String × TypeDefinition)}
    (told : TypesTold analysis done) (rest : List (String × TypeDefinition)) :
    TypesTold (analysis.loadTypes rest).2 (done ++ rest) := by
  induction rest generalizing analysis done with
  | nil => simpa [Analysis.loadTypes] using told
  | cons given rest ih =>
      have others := ih (told.loadType given)
      rwa [List.append_assoc, List.singleton_append] at others

structure MembersTold (analysis : Analysis) (types : List String)
    (done : List (String × MemberDefinition)) : Prop where
  formed : analysis.catalog.WellFormed
  inOrder : MembersInOrder analysis.catalog done
  faithful : Faithful analysis types (repeatedNames (·.2.fullName) done)

namespace MembersTold

variable {analysis : Analysis} {types : List String} {done : List (String × MemberDefinition)}

theorem loadMember (told : MembersTold analysis types done) {typeName : String} {on : TypeId}
    (names : analysis.catalog.Names typeName on) (definition : MemberDefinition) :
    MembersTold (analysis.loadMember on definition) types (done ++ [(typeName, definition)]) := by
  obtain ⟨entry, typeFound, _⟩ := names.2
  have changes : Changes .existingOnly analysis.catalog
      (analysis.loadMember on definition).catalog :=
    loadMember_changes told.formed (hasType_of_type? typeFound) definition
  refine ⟨changes.wellFormed told.formed, ?_, ?_⟩
  · exact MembersInOrder.keptByMember definition told.formed names told.inOrder
  · rw [repeatedNames_concat, ← told.inOrder.memberNamed? told.formed]
    exact told.faithful.loadMember on definition

theorem loadMembers (told : MembersTold analysis types done) {loaded : LoadedType}
    (names : analysis.catalog.Names loaded.2.fullName loaded.1) :
    MembersTold (analysis.loadMembers loaded) types
      (done ++ loaded.2.memberDefinitions.map fun member => (loaded.2.fullName, member)) := by
  have entered : MembersTold (loaded.2.memberDefinitions.foldl (·.loadMember loaded.1 ·) analysis)
      types (done ++ loaded.2.memberDefinitions.map fun member => (loaded.2.fullName, member)) := by
    generalize loaded.2.memberDefinitions = definitions
    induction definitions generalizing analysis done with
    | nil => simpa using told
    | cons definition rest ih =>
        have further := ih (told.loadMember names definition)
          ((loadMember_extends analysis loaded.1 definition).names names)
        simpa using further
  rw [TypeDefinition.memberDefinitions, List.foldl_append, List.foldl_append, List.foldl_map,
    List.foldl_map, List.foldl_map] at entered
  exact ⟨entered.formed, entered.inOrder, entered.faithful.note rfl⟩

theorem foldl_loadMembers (told : MembersTold analysis types done) {loaded : List LoadedType}
    (names : ∀ one ∈ loaded, analysis.catalog.Names one.2.fullName one.1) :
    MembersTold (loaded.foldl Analysis.loadMembers analysis) types
      (done ++ (loaded.map (·.2)).flatMap fun definition =>
        definition.memberDefinitions.map fun member => (definition.fullName, member)) := by
  induction loaded generalizing analysis done with
  | nil => simpa using told
  | cons one rest ih =>
      have extended : analysis.catalog.Extends (analysis.loadMembers one).catalog :=
        (extends_keptByLoading _).loadMembers (.refl _) one
      have further := ih (told.loadMembers (names one List.mem_cons_self)) fun other there =>
        extended.names (names other (List.mem_cons_of_mem _ there))
      simpa using further

end MembersTold

theorem allocated_faithful (metadata : Metadata) :
    Faithful (allocate {} metadata).2 (repeatedNames (·.2.fullName) (typeDefinitions metadata))
      (repeatedNames (·.2.fullName) metadata.memberDefinitions) := by
  have start : TypesTold {} [] := ⟨wellFormed_empty, rfl, ⟨rfl, rfl, rfl⟩⟩
  have typed : TypesTold (typesLoaded metadata).2 (typeDefinitions metadata) :=
    start.loadTypes (typeDefinitions metadata)
  have entered : MembersTold (typesLoaded metadata).2 _ [] :=
    ⟨typed.formed, membersInOrder_start metadata, typed.faithful⟩
  have all := entered.foldl_loadMembers (typesLoaded_names metadata)
  rw [List.nil_append, show (typesLoaded metadata).1.map (·.2) = _ from allocated_loaded metadata]
    at all
  exact all.faithful.note rfl

theorem build_faithful (options : Options) (metadata : Metadata) :
    Faithful (Analysis.build {} options metadata).2
      (repeatedNames (·.2.fullName) (typeDefinitions metadata))
      (repeatedNames (·.2.fullName) metadata.memberDefinitions) := by
  have extracted := (allocated_faithful metadata).extractAll options (allocate {} metadata).1
  unfold Analysis.build
  dsimp only
  generalize (allocate {} metadata).2.extractAll options (allocate {} metadata).1 = outcome
    at extracted ⊢
  rcases outcome with ⟨error | statistics, later⟩
  · exact extracted
  · exact extracted.turnAround options

theorem build_keeps_catalog {options : Options} {metadata : Metadata} {architecture : Architecture}
    (built : (Architecture.build options metadata).1 = .ok architecture) :
    (Analysis.build {} options metadata).2.catalog = architecture.catalog := by
  have same : (Analysis.build {} options metadata).1 = .ok architecture := built
  unfold Analysis.build at same ⊢
  dsimp only at same ⊢
  generalize (allocate {} metadata).2.extractAll options (allocate {} metadata).1 = outcome
    at same ⊢
  rcases outcome with ⟨error | statistics, later⟩
  · cases same
  · cases same
    rfl

/-! ## What was loaded -/

theorem memberDefinitions_eq (metadata : Metadata) :
    metadata.memberDefinitions = metadata.firstTypes.flatMap fun given =>
      given.2.memberDefinitions.map fun member => (given.2.fullName, member) := by
  rw [Metadata.memberDefinitions, Metadata.definitions_eq, firstOf_map,
    List.flatMap_map]
  rfl

theorem IsEntry.sort {on : TypeId} {definition : MemberDefinition} {member : Member}
    (isEntry : IsEntry on definition member) : member.role.sort = definition.sort := by
  cases isEntry <;> rfl

theorem IsEntry.name {on : TypeId} {definition : MemberDefinition} {member : Member}
    (isEntry : IsEntry on definition member) : member.name = definition.name := by
  cases isEntry <;> rfl

private theorem Describes.standsFor {catalog : Catalog} {given : String × MemberDefinition}
    {member : Member} (described : Describes member.declaringType given.2 member)
    (names : catalog.Names given.1 member.declaringType) : catalog.StandsFor given member := by
  obtain ⟨entered, isEntry, extended⟩ := described
  have sort : member.role.sort = entered.role.sort := by
    rw [← MemberRole.sort_withoutBacking, extended.role, MemberRole.sort_withoutBacking]
  exact ⟨sort.trans isEntry.sort, extended.name.trans isEntry.name,
    extended.fullName.trans isEntry.fullName, extended.isStub.trans isEntry.matches.isStub, names⟩

section Built

variable {options : Options} {metadata : Metadata} {architecture : Architecture}
  (built : (Architecture.build options metadata).1 = .ok architecture)
include built

theorem built_definedTypes :
    List.Forall₂
      (fun given entry => entry.fullName = given.2.fullName ∧ entry.assembly = some given.1 ∧
        entry.kind = given.2.kind ∧ entry.visibility = given.2.visibility)
      metadata.firstTypes (architecture.catalog.types.toList.filter (!·.isStub)) := by
  refine forall₂_filter (fun index given listed => ?_) fun index entry found later => ?_
  · obtain ⟨entry, _, _, _, extended, there⟩ := @built_type? _ _ _ built ⟨index⟩ given listed
    refine ⟨_, (Array.getElem?_toList ..).trans there, ?_, extended.fullName, extended.assembly,
      extended.kind, extended.visibility⟩
    simp [extended.isStub, definedEntry]
  · rw [Array.getElem?_toList] at found
    simp [built_stubTypes built ⟨index⟩ entry found later]

theorem built_standsFor {index : Nat} {given : String × MemberDefinition}
    (listed : metadata.firstMembers[index]? = some given) :
    ∃ member, architecture.catalog.member? ⟨index⟩ = some member ∧
      architecture.catalog.StandsFor given member := by
  obtain ⟨_, held, mirrors⟩ := build_mirrors built
  have grown : (allocate {} metadata).2.catalog.Extends architecture.catalog :=
    (extracted_grows metadata options).extends.trans mirrors.extends
  obtain ⟨entered, found, names, isEntry⟩ :=
    forall₂_getElem? (allocated_membersInOrder metadata) listed
  rw [Array.getElem?_toList] at found
  obtain ⟨later, there, extended⟩ := @Extends.member? _ _ grown ⟨index⟩ entered found
  rw [← extended.declaringType] at names isEntry
  exact ⟨later, there, Describes.standsFor ⟨_, isEntry, extended⟩ (grown.names names)⟩

theorem built_definedMembers :
    List.Forall₂ architecture.catalog.StandsFor metadata.firstMembers
      (architecture.catalog.members.toList.filter (!·.isStub)) := by
  refine forall₂_filter (fun index given listed => ?_) fun index member found later => ?_
  · obtain ⟨member, there, stands⟩ := built_standsFor built listed
    exact ⟨member, (Array.getElem?_toList ..).trans there, by simp [stands.defined], stands⟩
  · rw [Array.getElem?_toList] at found
    cases isStub : member.isStub with
    | true => rfl
    | false =>
        obtain ⟨before, there, _⟩ := @built_loaded _ _ _ built ⟨index⟩ member found isStub
        have inRange := (Array.getElem?_eq_some_iff.mp there).1
        rw [← Array.length_toList, ← (allocated_membersInOrder metadata).length_eq] at inRange
        exact absurd later (Nat.not_le.mpr inRange)

end Built

end Analysis

open Analysis

/-- The journal of a successful analysis tells what came of all that was given. The stub types are
told of in the order of their ids. A type definition is loaded, unless an earlier one has its name;
then there is a warning. Likewise a definition of a member in a loaded type gives one member of its
sort, its names and its type, unless an earlier one has its name, and then there is a warning. -/
theorem journal_tells_build {options : Options} {metadata : Metadata} {architecture : Architecture}
    (built : (Architecture.build options metadata).1 = .ok architecture) :
    let journal := (Architecture.build options metadata).2
    let catalog := architecture.catalog
    let types := withEarlier metadata.namedDefinitions
    let loaded := (types.filter (!isRepeated (·.2.fullName) ·)).map (·.2)
    let given := loaded.flatMap fun one =>
      one.2.memberDefinitions.map fun member => (one.2.fullName, member)
    let members := withEarlier given
    let others := (members.filter (!isRepeated (·.2.fullName) ·)).map (·.2)
    let defined := catalog.members.toList.filter (!·.isStub)
    (journal.told "Creating stub type" =
      (catalog.types.toList.filter (·.isStub)).map fun entry =>
        (.trace, [("type_name", .text entry.fullName)])) ∧
    (journal.told "Duplicate type definition ignored" =
      (types.filter (isRepeated (·.2.fullName))).map fun one =>
        (.warn, [("type_name", .text one.2.2.fullName)])) ∧
    (allocate {} metadata).1.map (·.2) = loaded.map (·.2) ∧
    List.Forall₂
      (fun one entry => entry.fullName = one.2.fullName ∧ entry.assembly = some one.1 ∧
        entry.kind = one.2.kind ∧ entry.visibility = one.2.visibility)
      loaded (catalog.types.toList.filter (!·.isStub)) ∧
    (journal.told "Duplicate member definition ignored" =
      (members.filter (isRepeated (·.2.fullName))).map fun one =>
        (.warn, [("member", .text one.2.2.fullName)])) ∧
    List.Forall₂ catalog.StandsFor others defined ∧
    (∀ one ∈ others, ∃! id, ∃ member, catalog.member? id = some member ∧
      catalog.StandsFor one member) ∧
    defined.length + (journal.told "Duplicate member definition ignored").length =
      given.length := by
  intro journal catalog types loaded given members others defined
  have faithful := build_faithful options metadata
  have isLoaded : loaded = metadata.firstTypes := (firstOf_eq_unrepeated _).symm
  have isGiven : given = metadata.memberDefinitions := by
    rw [memberDefinitions_eq, ← isLoaded]
  have isOther : others = metadata.firstMembers := by
    rw [Metadata.firstMembers, ← isGiven]
    exact (firstOf_eq_unrepeated _).symm
  have warned : journal.told "Duplicate member definition ignored" =
      (members.filter (isRepeated (·.2.fullName))).map fun one =>
        (.warn, [("member", .text one.2.2.fullName)]) := by
    rw [Journal.told, show journal.saying _ = _ from faithful.members, repeatedNames, ← isGiven,
      List.map_map, List.map_map]
    rfl
  have stand : List.Forall₂ catalog.StandsFor others defined :=
    isOther ▸ built_definedMembers built
  refine ⟨?_, ?_, ?_, isLoaded ▸ built_definedTypes built, warned, stand, ?_, ?_⟩
  · rw [Journal.told, show journal.saying _ = _ from faithful.stubs, build_keeps_catalog built,
      Catalog.stubTypes, List.map_map, List.map_map]
    rfl
  · rw [Journal.told, show journal.saying _ = _ from faithful.types, repeatedNames, List.map_map,
      List.map_map]
    rfl
  · rw [allocated_loaded, Metadata.definitions_eq, firstOf_map, isLoaded]
    rfl
  · intro definition there
    rw [isOther] at there
    obtain ⟨index, listed⟩ := List.getElem?_of_mem there
    obtain ⟨member, found, stands⟩ := built_standsFor built listed
    refine ⟨⟨index⟩, ⟨member, found, stands⟩, ?_⟩
    rintro other ⟨another, otherFound, standsToo⟩
    exact (built_wellFormed built).member?_inj otherFound found
      (standsToo.fullName.trans stands.fullName.symm)
  · rw [← stand.length_eq, warned, List.length_map, List.length_map, Nat.add_comm,
      ← length_withEarlier given]
    exact (List.length_eq_length_filter_add _).symm

/-- Of two definitions of the ledger the second is told of, and of two definitions of its method. One
member is left, and six types are known only by name. -/
theorem journal_tells_build_ledger :
    ∃ architecture, (Architecture.build {} ledgerMetadata).1 = .ok architecture ∧
      let journal := (Architecture.build {} ledgerMetadata).2
      journal.told "Duplicate type definition ignored" =
        [(.warn, [("type_name", .text "Shop.Ledger")])] ∧
      journal.told "Duplicate member definition ignored" =
        [(.warn, [("member", .text "Shop.Ledger::Post(Shop.Entry)")])] ∧
      (journal.told "Creating stub type").length = 6 ∧
      (architecture.catalog.types.toList.filter (·.isStub)).length = 6 ∧
      (architecture.catalog.members.toList.filter (!·.isStub)).length = 1 := by
  obtain ⟨architecture, built, evaluated⟩ := @build_passes {} ledgerMetadata
    (fun architecture : Architecture =>
      (architecture.catalog.types.toList.filter fun entry : TypeEntry => entry.isStub).length = 6)
    (by decide +kernel)
  have stubs := of_decide_eq_true evaluated
  obtain ⟨created, types, _, _, members, _, _, counted⟩ := journal_tells_build built
  refine ⟨architecture, built, types.trans (by decide +kernel), members.trans (by decide +kernel),
    ?_, stubs, ?_⟩
  · rw [created, List.length_map, stubs]
  · have warned : ((Architecture.build {} ledgerMetadata).2.told
        "Duplicate member definition ignored").length = 1 := by
      rw [members]
      decide +kernel
    rw [warned] at counted
    exact Nat.succ.inj (counted.trans (by decide +kernel))

end MemberGraph
