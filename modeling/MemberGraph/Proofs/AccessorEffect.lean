import MemberGraph.Proofs.Recording

/-!
All that tying an accessor to its property does to a catalog. The field that stores the property is
found by the last operand that names one; resolving the calls before does not change which one that
is, since stubs are no fields. Then links change at the property, at that field and at the field
before, and dependencies are added to the property and to one accessor.
-/

set_option autoImplicit false

namespace MemberGraph

open Analysis

theorem Selection.unique?_among_iff {α : Type} {values : List α} (distinct : values.Nodup)
    {value : α} : (among values).unique? = some value ↔ ∀ other, other ∈ values ↔ other = value := by
  match values with
  | [] => simp [among, unique?]
  | [one] =>
      simp only [among, unique?, Option.some.injEq, List.mem_singleton]
      constructor
      · rintro rfl other
        exact Iff.rfl
      · intro only
        exact (only one).mp rfl
  | one :: two :: rest =>
      simp only [among, unique?, reduceCtorEq, false_iff]
      intro only
      have first := (only one).mp (by simp)
      have second := (only two).mp (by simp)
      simp [first, second] at distinct

namespace Catalog

/-! ## Storage operands -/

def DeclaresField (catalog : Catalog) (on : TypeId) (name : String) (id : MemberId) : Prop :=
  ∃ member, catalog.member? id = some member ∧ member.isField ∧ member.declaringType = on ∧
    member.name = name

/-- A field operand gives a field to store a property in: it names the type, the field is the only one
of the type with its name, and the field is free or stores the property already. -/
structure GivesStorage (catalog : Catalog) (on : TypeId) (property : MemberId)
    (operand : FieldReference) (field : MemberId) : Prop where
  names : ∃ entry, catalog.type? on = some entry ∧ operand.declaringType.fullName = entry.fullName
  only : ∀ id, catalog.DeclaresField on operand.name id ↔ id = field
  free : ∀ owner, catalog.backedProperty? field = some owner → owner = property

/-- A field is given by the last operand of a body that gives any. -/
def StoresLast (catalog : Catalog) (on : TypeId) (property : MemberId) (body : MethodBody)
    (field : MemberId) : Prop :=
  ∃ before operand after,
    fieldOperands body.instructions = before ++ operand :: after ∧
    catalog.GivesStorage on property operand field ∧
    ∀ later ∈ after, ∀ id, ¬catalog.GivesStorage on property later id

section Storage

variable {catalog : Catalog} {on : TypeId} {property : MemberId}

private theorem WellFormed.map_id_declaredMembers (formed : catalog.WellFormed) {entry : TypeEntry}
    (found : catalog.type? on = some entry) :
    (catalog.declaredMembers on).map (·.id) = entry.members.toList := by
  simp only [declaredMembers, found, List.map_filterMap]
  refine (List.filterMap_congr (g := some) fun id there => ?_).trans List.filterMap_some
  obtain ⟨member, listed, _⟩ :=
    (formed.mem_members_iff found).mp (Array.mem_toList_iff.mp there)
  rw [listed, Option.map_some, formed.memberId listed]

theorem WellFormed.unique?_among_declared_iff (formed : catalog.WellFormed) {fits : Member → Bool}
    {chosen : MemberId} :
    (Selection.among (((catalog.declaredMembers on).filter fits).map (·.id))).unique? = some chosen ↔
      ∀ id, (∃ member, catalog.member? id = some member ∧ member.declaringType = on ∧
        fits member) ↔ id = chosen := by
  have distinct : (((catalog.declaredMembers on).filter fits).map (·.id)).Nodup := by
    refine (List.filter_sublist.map _).nodup ?_
    cases found : catalog.type? on with
    | none => simp [declaredMembers, found]
    | some entry =>
        rw [formed.map_id_declaredMembers found]
        exact (formed.increasing found).imp fun before same => by subst same; omega
  rw [Selection.unique?_among_iff distinct]
  refine forall_congr' fun id => iff_congr ?_ Iff.rfl
  rw [List.mem_map]
  constructor
  · rintro ⟨member, there, rfl⟩
    obtain ⟨listed, fitting⟩ := List.mem_filter.mp there
    obtain ⟨found, declared⟩ := Catalog.mem_declaredMembers formed.sound listed
    exact ⟨member, found, declared, fitting⟩
  · rintro ⟨member, found, rfl, fitting⟩
    exact ⟨member, List.mem_filter.mpr ⟨formed.mem_declaredMembers found, fitting⟩,
      formed.memberId found⟩

theorem WellFormed.fieldNamed_unique?_iff (formed : catalog.WellFormed) {name : String}
    {field : MemberId} : (catalog.fieldNamed on name).unique? = some field ↔
      ∀ id, catalog.DeclaresField on name id ↔ id = field := by
  rw [fieldNamed, declaredFields, List.filter_filter, formed.unique?_among_declared_iff]
  refine forall_congr' fun id => iff_congr (exists_congr fun member => ?_) Iff.rfl
  rw [Bool.and_eq_true, beq_iff_eq]
  refine and_congr_right fun _ => ?_
  rw [← and_assoc, and_comm]

def givenStorage? (catalog : Catalog) (on : TypeId) (property : MemberId)
    (operand : FieldReference) : Option MemberId :=
  (catalog.type? on).bind fun entry =>
    if operand.declaringType.fullName == entry.fullName then
      (catalog.fieldNamed on operand.name).unique?.filter (catalog.mayBack · property)
    else
      none

theorem WellFormed.givenStorage?_eq_some_iff (formed : catalog.WellFormed)
    {operand : FieldReference} {field : MemberId} :
    catalog.givenStorage? on property operand = some field ↔
      catalog.GivesStorage on property operand field := by
  rw [givenStorage?, Option.bind_eq_some_iff]
  constructor
  · rintro ⟨entry, found, given⟩
    obtain ⟨named, given⟩ := Option.ite_none_right_eq_some.mp given
    obtain ⟨unique, allowed⟩ := Option.filter_eq_some_iff.mp given
    obtain ⟨member, there, _, free⟩ := mayBack_iff.mp allowed
    refine ⟨⟨entry, found, by simpa using named⟩, formed.fieldNamed_unique?_iff.mp unique, ?_⟩
    intro owner backs
    rw [backedProperty?, there] at backs
    exact free owner backs
  · rintro ⟨⟨entry, found, named⟩, only, free⟩
    obtain ⟨member, there, isField, _⟩ := (only field).mpr rfl
    refine ⟨entry, found, Option.ite_none_right_eq_some.mpr ⟨by simpa using named,
      Option.filter_eq_some_iff.mpr ⟨formed.fieldNamed_unique?_iff.mpr only, ?_⟩⟩⟩
    refine mayBack_iff.mpr ⟨member, there, isField, fun owner backs => free owner ?_⟩
    rw [backedProperty?, there]
    exact backs

theorem storageCandidate?_eq (body : MethodBody) :
    storageCandidate? catalog on property body =
      ((fieldOperands body.instructions).filterMap
        (catalog.givenStorage? on property)).getLast? := by
  unfold storageCandidate? givenStorage?
  rw [fieldOperands_eq]
  generalize body.instructions.filterMap Instruction.field? = operands
  cases catalog.type? on with
  | none => simp
  | some entry =>
      simp only [Option.bind_eq_bind, Option.bind_some, List.filter_filterMap, List.filterMap_filter]
      refine congrArg List.getLast? (List.filterMap_congr fun operand _ => ?_)
      split <;> rfl

theorem WellFormed.storageCandidate?_iff (formed : catalog.WellFormed) (body : MethodBody)
    (field : MemberId) : storageCandidate? catalog on property body = some field ↔
      catalog.StoresLast on property body field := by
  have refused : ∀ operand, catalog.givenStorage? on property operand = none ↔
      ∀ id, ¬catalog.GivesStorage on property operand id := by
    intro operand
    simp only [← formed.givenStorage?_eq_some_iff, Option.eq_none_iff_forall_ne_some, ne_eq]
  rw [storageCandidate?_eq, List.getLast?_filterMap, List.findSome?_eq_some_iff]
  constructor
  · rintro ⟨after, operand, before, listed, given, none⟩
    refine ⟨before.reverse, operand, after.reverse, ?_, formed.givenStorage?_eq_some_iff.mp given,
      fun later there => (refused later).mp (none later (List.mem_reverse.mp there))⟩
    simpa using congrArg List.reverse listed
  · rintro ⟨before, operand, after, listed, given, none⟩
    refine ⟨after.reverse, operand, before.reverse, by simp [listed],
      formed.givenStorage?_eq_some_iff.mpr given, fun later there => (refused later).mpr
        (none later (List.mem_reverse.mp there))⟩

/-- Stubs do not change which operands give a field to store a property in. -/
theorem Stubbed.givesStorage_iff {policy : CallPolicy} {old new : Catalog} (stubbed : old.Stubbed new)
    (grows : Grows policy old new) (known : old.hasType on) (operand : FieldReference)
    (field : MemberId) :
    new.GivesStorage on property operand field ↔ old.GivesStorage on property operand field := by
  obtain ⟨entry, typeFound⟩ := hasType_iff.mp known
  obtain ⟨later, typeThere, extended⟩ := grows.extends.type? typeFound
  have sameField : ∀ id member, new.member? id = some member ∧ member.isField ↔
      old.member? id = some member ∧ member.isField := by
    intro id member
    constructor
    · rintro ⟨there, isField⟩
      obtain ⟨before, found, _⟩ := grows.field_before there isField
      have same := stubbed.member? found
      rw [there] at same
      cases same
      exact ⟨found, isField⟩
    · rintro ⟨found, isField⟩
      exact ⟨stubbed.member? found, isField⟩
  have names : (∃ entry, new.type? on = some entry ∧
      operand.declaringType.fullName = entry.fullName) ↔
        ∃ entry, old.type? on = some entry ∧
          operand.declaringType.fullName = entry.fullName := by
    simp [typeFound, typeThere, extended.fullName]
  have declares : ∀ id, new.DeclaresField on operand.name id ↔
      old.DeclaresField on operand.name id := by
    intro id
    refine exists_congr fun member => ?_
    rw [← and_assoc, sameField, and_assoc]
  have backed : new.backedProperty? field = old.backedProperty? field := by
    refine Option.ext fun owner => ?_
    rw [backedProperty?, backedProperty?, Option.bind_eq_some_iff, Option.bind_eq_some_iff]
    refine exists_congr fun member => ?_
    constructor
    · rintro ⟨there, backs⟩
      exact ⟨((sameField field member).mp
        ⟨there, Member.isField_of_backedProperty? backs⟩).1, backs⟩
    · rintro ⟨found, backs⟩
      exact ⟨stubbed.member? found, backs⟩
  constructor
  · rintro ⟨named, only, free⟩
    exact ⟨names.mp named, fun id => (declares id).symm.trans (only id), backed ▸ free⟩
  · rintro ⟨named, only, free⟩
    exact ⟨names.mpr named, fun id => (declares id).trans (only id), backed.symm ▸ free⟩

end Storage

/-! ## Links -/

end Catalog

def MemberRole.stored (role : MemberRole) (id property field : MemberId)
    (previous : Option MemberId) : MemberRole :=
  match role with
  | .method traits => .method traits
  | .field backed =>
    .field (if field = id then some property else if previous = some id then none else backed)
  | .property links =>
    .property (if property = id then { links with backingField := some field } else links)

namespace Catalog

section Links

variable {catalog : Catalog} {property field : MemberId} {links : PropertyLinks}

private theorem member?_freePrevious (previous : Option MemberId) (id : MemberId) :
    (catalog.freePrevious previous field).member? id = (catalog.member? id).map fun member =>
      if previous = some id ∧ field ≠ id then member.withBackedProperty none else member := by
  unfold freePrevious
  split
  · next before =>
      split
      · next same =>
          subst same
          have kept : ¬(some before = some id ∧ before ≠ id) := by
            rintro ⟨same, differ⟩
            exact differ (Option.some.inj same)
          simp only [if_neg kept, Option.map_id_fun', id_eq]
      · next differ =>
          rw [member?_updateMember]
          by_cases here : before = id
          · subst here
            simp [Ne.symm differ]
          · simp [here]
  · simp

private theorem member?_linkBacking (allowed : catalog.mayBack field property)
    (linked : catalog.linksOf? property = some links) (id : MemberId) :
    (catalog.linkBacking property field).2.member? id =
      (catalog.member? id).map fun member =>
        { member with role := member.role.stored id property field links.backingField } := by
  rw [linkBacking_of_allowed allowed linked, member?_updateMember, member?_freePrevious,
    member?_updateMember]
  cases catalog.member? id with
  | none => simp
  | some member =>
      obtain ⟨_, _, _, _, _, _, _, role, _, _⟩ := member
      cases role with
      | method traits =>
          simp [MemberRole.stored, Member.withBackedProperty, Member.withBackingField]
      | field backed =>
          by_cases new : field = id <;> by_cases before : links.backingField = some id <;>
            simp [MemberRole.stored, Member.withBackedProperty, Member.withBackingField, new, before]
      | property owned =>
          by_cases own : property = id <;>
            simp [MemberRole.stored, Member.withBackedProperty, Member.withBackingField, own]

end Links

/-! ## Calls and types -/

theorem Reads.calls_eq {catalog : Catalog} (formed : catalog.WellFormed) {origin : MemberId}
    {calls : List Dependency} {references : List MethodReference}
    (reads : catalog.Reads origin calls (references.map (⟨.call, ·.fullName⟩))) :
    calls.map some = references.map fun reference =>
      (catalog.memberNamed? reference.fullName).map (.call origin) := by
  obtain ⟨named, origins⟩ := reads
  induction calls generalizing references with
  | nil =>
      cases references with
      | nil => rfl
      | cons reference rest => cases named
  | cons call others ih =>
      cases references with
      | nil => cases named
      | cons reference rest =>
          obtain ⟨first, further⟩ := List.cons.inj named
          have later := ih further fun other there => origins other (List.mem_cons_of_mem _ there)
          have own := origins call (by simp)
          cases call with
          | onType use source target =>
              obtain ⟨_, _, used⟩ := Option.map_eq_some_iff.mp first
              cases used
          | call source target =>
              obtain ⟨member, found, used⟩ := Option.map_eq_some_iff.mp first
              have leads := formed.memberNamed?_iff.mpr
                ⟨member, found, (NamedDependency.mk.inj used).2⟩
              cases own
              simp only [List.map_cons, later, leads]
              rfl

theorem Growth.type?_kept {policy : CallPolicy} {old new : Catalog} (growth : Growth policy old new)
    {id : TypeId} {entry : TypeEntry} (found : old.type? id = some entry) :
    ∃ members, new.type? id = some { entry with members } := by
  cases growth with
  | stubType fresh => exact ⟨_, (type?_addType_iff ..).mpr (.inr found)⟩
  | stubMethod wanted stub fresh returnKnown parametersKnown =>
      rw [type?_addMember _ fresh, found]
      split
      · exact ⟨_, rfl⟩
      · exact ⟨_, rfl⟩
  | dependencies offered => exact ⟨_, found⟩
  | link propertyFound fieldFound sameType => exact ⟨_, (type?_linkBacking ..).trans found⟩

theorem Grows.type?_kept {policy : CallPolicy} {old new : Catalog} (grows : Grows policy old new)
    {id : TypeId} {entry : TypeEntry} (found : old.type? id = some entry) :
    ∃ members, new.type? id = some { entry with members } := by
  induction grows with
  | refl => exact ⟨_, found⟩
  | tail _ growth ih =>
      obtain ⟨_, before⟩ := ih
      obtain ⟨members, after⟩ := growth.type?_kept before
      exact ⟨members, after⟩

/-! ## Ties -/

/-- All that changes when an accessor is tied to a property: links change at the property and at
fields, if there is a field to store it in, and the property and the accessor depend on more. Nothing
is added but stubs. -/
structure AccessorTied (policy : CallPolicy) (old new : Catalog) (property accessor : MemberId)
    (stored : Option MemberId) (dependencies : List Dependency) : Prop where
  member : ∀ {id member}, old.member? id = some member → new.member? id = some
    { member with
      dependencies :=
        if id = property ∨ id = accessor then member.dependencies ++ dependencies
        else member.dependencies
      role := stored.elim member.role fun field =>
        member.role.stored id property field (old.backingField? property) }
  added : ∀ {id member}, old.member? id = none → new.member? id = some member →
    Added policy old new id member ∧ member.dependencies = #[]
  type : ∀ {id entry}, old.type? id = some entry →
    ∃ members, new.type? id = some { entry with members } ∧
      (entry.isStub = false → members = entry.members)
  addedType : ∀ {id entry}, old.type? id = none → new.type? id = some entry → entry.isStub

private theorem Grows.accessorTied {policy : CallPolicy} {old new : Catalog}
    (grows : Grows policy old new)
    {property accessor : MemberId} {stored : Option MemberId} {dependencies : List Dependency}
    (changed : ∀ {id member}, old.member? id = some member → new.member? id = some
      { member with
        dependencies :=
          if id = property ∨ id = accessor then member.dependencies ++ dependencies
          else member.dependencies
        role := stored.elim member.role fun field =>
          member.role.stored id property field (old.backingField? property) })
    (bare : ∀ {id member}, old.member? id = none → new.member? id = some member →
      member.dependencies = #[]) :
    AccessorTied policy old new property accessor stored dependencies where
  member := changed
  added := by
    intro id member missing there
    refine ⟨?_, bare missing there⟩
    rcases grows.member?_before there with ⟨before, foundBefore, _⟩ | added
    · rw [missing] at foundBefore
      cases foundBefore
    · exact added
  type := by
    intro id entry there
    obtain ⟨members, kept⟩ := grows.type?_kept there
    refine ⟨members, kept, fun defined => ?_⟩
    have same := grows.type?_of_defined there defined
    rw [kept, Option.some.injEq] at same
    exact congrArg TypeEntry.members same
  addedType := by
    intro id entry missing there
    rcases grows.type?_before there with ⟨before, foundBefore, _⟩ | stub
    · rw [missing] at foundBefore
      cases foundBefore
    · exact stub

end Catalog

namespace Analysis

open Catalog

section Tying

variable {analysis : Analysis} {policy : CallPolicy} {on : TypeId} {property : MemberId}
  {owner : Member} {body : MethodBody}

theorem storedLast_iff (formed : analysis.catalog.WellFormed) (known : analysis.catalog.hasType on)
    (field : MemberId) :
    storageCandidate? (analysis.resolveAll policy (calledMethods body)).2.catalog on property body =
        some field ↔
      analysis.catalog.StoresLast on property body field := by
  have grows : Grows policy analysis.catalog
      (analysis.resolveAll policy (calledMethods body)).2.catalog := resolveAll_grows formed.sound _
  have stubbed : analysis.catalog.Stubbed
      (analysis.resolveAll policy (calledMethods body)).2.catalog := resolveAll_stubbed _
  rw [(grows.wellFormed formed).storageCandidate?_iff, StoresLast, StoresLast]
  simp only [stubbed.givesStorage_iff grows known]

section Storing

variable (found : analysis.catalog.member? property = some owner) (isProperty : owner.isProperty)
include found isProperty

theorem withStorage_cases :
    let resolved := (analysis.resolveAll policy (calledMethods body)).2.catalog
    let stored := analysis.withStorage policy on property body
    (storageCandidate? resolved on property body = none ∧ stored = resolved) ∨
    ∃ field links, storageCandidate? resolved on property body = some field ∧
      stored = (resolved.linkBacking property field).2 ∧ resolved.mayBack field property ∧
      resolved.linksOf? property = some links ∧
      links.backingField = analysis.catalog.backingField? property := by
  intro resolved stored
  have stubbed : analysis.catalog.Stubbed resolved := resolveAll_stubbed _
  have there := stubbed.member? found
  cases candidate : storageCandidate? resolved on property body with
  | none => exact .inl ⟨rfl, by simp only [stored, withStorage, linkStorage, resolved, candidate]⟩
  | some field =>
      obtain ⟨links, linked⟩ := Option.isSome_iff_exists.mp isProperty
      obtain ⟨entry, _, chosen⟩ := Option.bind_eq_some_iff.mp candidate
      refine .inr ⟨field, links, rfl, ?_, ?_, ?_, ?_⟩
      · simp only [stored, withStorage, linkStorage, resolved, candidate]
      · exact (List.mem_filter.mp (List.mem_of_getLast? chosen)).2
      · exact linksOf?_eq_some_iff.mpr ⟨owner, there, linked⟩
      · simp [Catalog.backingField?, linksOf?, found, linked]

private theorem withStorage_member? {id : MemberId} {member : Member}
    (there : analysis.catalog.member? id = some member) :
    (analysis.withStorage policy on property body).member? id = some
      { member with
        role := (storageCandidate? (analysis.resolveAll policy (calledMethods body)).2.catalog on
          property body).elim member.role fun field =>
            member.role.stored id property field (analysis.catalog.backingField? property) } := by
  have stubbed : analysis.catalog.Stubbed
      (analysis.resolveAll policy (calledMethods body)).2.catalog := resolveAll_stubbed _
  rcases @withStorage_cases analysis policy on property owner body found isProperty with
    ⟨none, same⟩ | ⟨field, links, candidate, same, allowed, linked, previous⟩
  · rw [same, none]
    exact stubbed.member? there
  · rw [same, candidate, member?_linkBacking allowed linked, stubbed.member? there, previous]
    rfl

private theorem withStorage_backingField? :
    (analysis.withStorage policy on property body).backingField? property =
      (storageCandidate? (analysis.resolveAll policy (calledMethods body)).2.catalog on
        property body).or (analysis.catalog.backingField? property) := by
  rcases @withStorage_cases analysis policy on property owner body found isProperty with
    ⟨none, same⟩ | ⟨field, links, candidate, same, allowed, linked, _⟩
  · rw [same, none, Option.none_or]
    exact backingField?_of_stubbed (resolveAll_stubbed _) property
  · rw [same, candidate, backingField?_linkBacking allowed linked, if_pos rfl, Option.some_or]

end Storing

theorem tiedDependencies_eq :
    analysis.tiedDependencies policy on property body =
      callsTo property (analysis.resolveAll policy (calledMethods body)).1 ++
        ((analysis.withStorage policy on property body).backingField? property).elim []
          (recordedDependencies analysis.catalog) := by
  rw [tiedDependencies, inherited, withStorage_recorded]

private theorem receiver_declared {catalog : Catalog} (formed : catalog.WellFormed)
    (found : catalog.member? property = some owner) {method : MemberId} {entry : Member}
    (together : entry.declaringType = owner.declaringType)
    (entryFound : catalog.member? method = some entry) (isMethod : entry.isMethod)
    (form : MethodForm) :
    ∃ accessor, catalog.member? (receiver catalog property method form) = some accessor ∧
      accessor.isMethod ∧ accessor.declaringType = owner.declaringType := by
  rcases receiver_cases formed property method form with
    own | ⟨another, accessor, anotherFound, accessorFound, given, sameType⟩
  · rw [own]
    exact ⟨entry, entryFound, isMethod, together⟩
  · rw [found] at anotherFound
    cases anotherFound
    exact ⟨accessor, accessorFound, given, sameType⟩

private theorem linkAccessor_tied (formed : analysis.catalog.WellFormed)
    (found : analysis.catalog.member? property = some owner) (isProperty : owner.isProperty)
    (declared : owner.declaringType = on) {method : MemberId} {entry : Member}
    (entryFound : analysis.catalog.member? method = some entry) (isMethod : entry.isMethod)
    (definition : MethodDefinition) :
    let stored := analysis.withStorage policy on property body
    let dependencies := analysis.tiedDependencies policy on property body
    let outcome := analysis.linkAccessor policy on property method definition body
    outcome.1 = .ok (.linked property (stored.backingField? property) dependencies.length) ∧
      outcome.2.catalog.backingField? property = stored.backingField? property ∧
      stored.Extends outcome.2.catalog ∧
      AccessorTied policy analysis.catalog outcome.2.catalog property
        (receiver analysis.catalog property method definition.form)
        (storageCandidate? (analysis.resolveAll policy (calledMethods body)).2.catalog on property
          body) dependencies := by
  intro stored dependencies outcome
  have storing : Grows policy analysis.catalog stored :=
    withStorage_grows formed.sound found declared body
  have grows : Grows policy analysis.catalog outcome.2.catalog :=
    linkAccessor_grows formed.sound found declared method definition body
  obtain ⟨accessor, accessorFound, given⟩ :=
    receiver_isMethod formed entryFound isMethod property definition.form
  have apart : receiver analysis.catalog property method definition.form ≠ property := by
    intro same
    rw [same, found] at accessorFound
    cases accessorFound
    rw [Member.isProperty_of_isMethod given] at isProperty
    cases isProperty
  have receiving := storing.receiver found method definition.form
  obtain ⟨_, accessorThere, _⟩ := storing.extends.member? accessorFound
  rcases @linkAccessor_cases analysis policy on property method definition body with
    ⟨_, linked, final⟩ | ⟨missing, _⟩
  · rw [receiving] at final
    refine ⟨linked, ?_, ?_, grows.accessorTied (fun {id member} there => ?_)
      fun {id member} missing there => ?_⟩
    · rw [final, backingField?_addDependencies, backingField?_addDependencies]
    · rw [final]
      exact (extends_addDependencies _ _).trans (extends_addDependencies _ _)
    · rw [final, Catalog.addDependencies, Catalog.addDependencies, member?_updateMember,
        member?_updateMember, withStorage_member? found isProperty there]
      by_cases own : id = property
      · subst own
        simp [apart, dependencies]
      · by_cases taken : id = receiver analysis.catalog property method definition.form
        · subst taken
          simp [own, Ne.symm own, dependencies]
        · simp [own, taken, Ne.symm own, Ne.symm taken]
    · -- Both that get dependencies were there before, so a member that is new gets none.
      have elsewhere : ∀ {other : MemberId} {known : Member},
          analysis.catalog.member? other = some known → other ≠ id := by
        rintro other known otherFound rfl
        rw [missing] at otherFound
        cases otherFound
      have recorded : recordedDependencies outcome.2.catalog id = [] := by
        rw [final, recordedDependencies_addDependencies, recordedDependencies_addDependencies,
          withStorage_recorded, if_neg (elsewhere found), if_neg (elsewhere accessorFound)]
        · simp [recordedDependencies, missing]
        · exact hasMember_of_member? accessorThere
        · exact (extends_addDependencies _ _).hasMember
            (storing.extends.hasMember (hasMember_of_member? found))
      simpa [recordedDependencies, there] using recorded
  · rw [receiving, hasMember_of_member? accessorThere] at missing
    cases missing

theorem accessorCalls_eq (formed : analysis.catalog.WellFormed)
    (found : analysis.catalog.member? property = some owner) (declared : owner.declaringType = on)
    {later : Catalog} (laterFormed : later.WellFormed)
    (extended : (analysis.withStorage policy on property body).Extends later) :
    (callsTo property (analysis.resolveAll policy (calledMethods body)).1).map some =
      ((calledMethods body).filter (analysis.catalog.resolvable policy)).map fun reference =>
        (later.memberNamed? reference.fullName).map (.call property) := by
  have resolving : Grows policy analysis.catalog
      (analysis.resolveAll policy (calledMethods body)).2.catalog := resolveAll_grows formed.sound _
  obtain ⟨between, there, memberExtended⟩ := resolving.extends.member? found
  have linking : Grows policy (analysis.resolveAll policy (calledMethods body)).2.catalog
      (analysis.withStorage policy on property body) :=
    linkStorage_grows (resolving.sound formed.sound) there
      (memberExtended.declaringType.trans declared) body
  exact (callsTo_reads formed laterFormed property (linking.extends.trans extended)).calls_eq
    laterFormed

private theorem linkAccessor_exactly (formed : analysis.catalog.WellFormed)
    (found : analysis.catalog.member? property = some owner) (isProperty : owner.isProperty)
    (declared : owner.declaringType = on) {method : MemberId} {entry : Member}
    (entryFound : analysis.catalog.member? method = some entry) (isMethod : entry.isMethod)
    (definition : MethodDefinition) :
    let old := analysis.catalog
    let outcome := analysis.linkAccessor policy on property method definition body
    let new := outcome.2.catalog
    ∃ (stored : Option MemberId) (calls : List Dependency),
      let field := stored.or (old.backingField? property)
      let dependencies := calls ++ field.elim [] (recordedDependencies old)
      outcome.1 = .ok (.linked property field dependencies.length) ∧
      new.backingField? property = field ∧
      (∀ id, stored = some id ↔ old.StoresLast on property body id) ∧
      (calls.map some = ((calledMethods body).filter (old.resolvable policy)).map fun reference =>
        (new.memberNamed? reference.fullName).map (.call property)) ∧
      AccessorTied policy old new property (receiver old property method definition.form) stored
        dependencies := by
  intro old outcome new
  have grows : Grows policy old new :=
    linkAccessor_grows formed.sound found declared method definition body
  have known : old.hasType on := declared ▸ (formed.knowsMember found).declaringType
  obtain ⟨linked, backing, extended, tied⟩ := @linkAccessor_tied analysis policy on property owner
    body formed found isProperty declared method entry entryFound isMethod definition
  rw [tiedDependencies_eq, withStorage_backingField? found isProperty] at linked tied
  rw [withStorage_backingField? found isProperty] at backing
  exact ⟨_, _, linked, backing, storedLast_iff formed known,
    accessorCalls_eq formed found declared (grows.wellFormed formed) extended, tied⟩

end Tying

end Analysis

open Catalog Analysis

/-- What tying an accessor does. It never fails. If no property fits, nothing changes. Otherwise the
property is stored in the field that the last operand for it gives, or where it was stored before; its
calls, and what that field depends on, are added once to the property and once to the accessor of that
form, and no more is changed than these lists and the links of the fields concerned. -/
theorem accessor_tied_exactly {analysis : Analysis} {policy : CallPolicy} {on : TypeId}
    {method : MemberId} {entry : Member} {definition : MethodDefinition} {convention : Convention}
    {body : MethodBody} (formed : analysis.catalog.WellFormed)
    (found : analysis.catalog.member? method = some entry) (isMethod : entry.isMethod)
    (declared : entry.declaringType = on) (form : definition.form.convention? = some convention)
    (hasBody : definition.body = some body) :
    let old := analysis.catalog
    let matched := (analysis.propertyOf on convention definition.name definition.fullName).1
    let outcome := analysis.tieAccessor policy on method definition
    let new := outcome.2.catalog
    (outcome.1 = .ok .unlinked ↔ matched = none) ∧ (matched = none → new = old) ∧
    ∀ property, matched = some property →
      ∃ (stored : Option MemberId) (calls : List Dependency),
        let field := stored.or (old.backingField? property)
        let dependencies := calls ++ field.elim [] (recordedDependencies old)
        outcome.1 = .ok (.linked property field dependencies.length) ∧
        new.backingField? property = field ∧
        (∀ id, stored = some id ↔ old.StoresLast on property body id) ∧
        (calls.map some = ((callOperands body.instructions).filter fun reference =>
          (analysis.resolve policy reference).1.isSome).map fun reference =>
            (new.memberNamed? reference.fullName).map (.call property)) ∧
        (∃ owner, old.member? property = some owner ∧ owner.isProperty ∧ owner.declaringType = on) ∧
        (∃ accessor, old.member? (receiver old property method definition.form) = some accessor ∧
          accessor.isMethod ∧ accessor.declaringType = on) ∧
        AccessorTied policy old new property (receiver old property method definition.form) stored
          dependencies := by
  intro old matched outcome new
  have tied : old.tied? on definition = matched := by
    rw [tied?, form, hasBody]
    exact (propertyOf_eq on convention definition.name definition.fullName).1.symm
  rcases @tieAccessor_cases analysis policy on method definition with
    ⟨property, sameBody, searched, isTied, hasSameBody, same, opened⟩ | ⟨none, unchanged, unlinked⟩
  · cases hasBody.symm.trans hasSameBody
    obtain ⟨owner, ownerFound, isProperty, ownerDeclared⟩ := tied?_declared formed.sound isTied
    have receives := receiver_declared formed ownerFound (declared.trans ownerDeclared.symm) found
      isMethod definition.form
    rw [ownerDeclared] at receives
    have effect := @linkAccessor_exactly searched policy on property owner body (same ▸ formed)
      (same ▸ ownerFound) isProperty ownerDeclared method entry (same ▸ found) isMethod definition
    rw [same, ← opened] at effect
    obtain ⟨stored, calls, linked, backing, last, leads, ties⟩ := effect
    rw [tied] at isTied
    refine ⟨iff_of_false ?_ ?_, fun none => ?_, fun another isMatched => ?_⟩
    · rw [linked]
      exact fun unlinked => by cases unlinked
    · rw [isTied]
      exact Option.some_ne_none _
    · rw [isTied] at none
      cases none
    · rw [isTied] at isMatched
      cases isMatched
      refine ⟨stored, calls, linked, backing, last, ?_,
        ⟨owner, ownerFound, isProperty, ownerDeclared⟩, receives, ties⟩
      rw [leads, funext (resolve_isSome formed policy), callOperands_eq]
  · rw [tied] at none
    refine ⟨iff_of_true ?_ none, fun _ => unchanged, fun property some => ?_⟩
    · rcases unlinked with unlinked | ⟨missing, _⟩
      · exact unlinked
      · rw [form] at missing
        cases missing
    · rw [none] at some
      cases some

def printingGetter : MethodDefinition :=
  let order : TypeReference := { fullName := "Shop.Order" }
  let money : TypeReference := { fullName := "Shop.Money" }
  let write : MethodReference := .ofSignature { fullName := "Sys.Console" } "Write" money [money]
  { MethodDefinition.ofSignature order "get_Total" money [] with
    isGetter := true
    body := some { instructions :=
      [{ opcode := .ldfld, operand := some (.field (.ofName order "_total" money)) },
        { opcode := .call, operand := some (.method write) }, { opcode := .ret }] } }

/-- The property is stored in the field, and has two dependencies more: on the method that prints,
and what the field depends on. -/
theorem accessor_tied_exactly_order :
    let analysis := (allocate {} orderMetadata).2
    let outcome := analysis.tieAccessor .stubExternal ⟨0⟩ ⟨1⟩ printingGetter
    analysis.catalog.WellFormed ∧
      (∃ entry, analysis.catalog.member? ⟨1⟩ = some entry ∧ entry.isMethod ∧
        entry.declaringType = ⟨0⟩) ∧
      (analysis.propertyOf ⟨0⟩ .getter printingGetter.name printingGetter.fullName).1 = some ⟨3⟩ ∧
      outcome.1 = .ok (.linked ⟨3⟩ (some ⟨0⟩) 2) ∧
      ∃ dependencies, dependencies.length = 2 ∧
        AccessorTied .stubExternal analysis.catalog outcome.2.catalog ⟨3⟩ ⟨1⟩ (some ⟨0⟩)
          dependencies := by
  intro analysis outcome
  have formed : analysis.catalog.WellFormed := allocated_wellFormed orderMetadata
  have matched : (analysis.propertyOf ⟨0⟩ .getter printingGetter.name printingGetter.fullName).1 =
      some ⟨3⟩ := by decide +kernel
  have backing : analysis.catalog.backingField? ⟨3⟩ = none := by decide +kernel
  have receives : receiver analysis.catalog ⟨3⟩ ⟨1⟩ printingGetter.form = ⟨1⟩ := by decide +kernel
  have ended : outcome.1.toOption = some (.linked ⟨3⟩ (some ⟨0⟩) 2) := by decide +kernel
  have evaluated : (analysis.catalog.member? ⟨1⟩).any fun member : Member =>
      member.isMethod && decide (member.declaringType = ⟨0⟩) := by decide +kernel
  obtain ⟨entry, found, isMethod, declared⟩ : ∃ entry, analysis.catalog.member? ⟨1⟩ = some entry ∧
      entry.isMethod ∧ entry.declaringType = ⟨0⟩ := by
    simpa only [Option.any_eq_true, Bool.and_eq_true, decide_eq_true_eq] using evaluated
  clear_value analysis
  have effect := @accessor_tied_exactly analysis .stubExternal ⟨0⟩ ⟨1⟩ entry printingGetter .getter
    _ formed found isMethod declared rfl rfl
  obtain ⟨stored, calls, linked, -, -, -, -, -, ties⟩ := effect.2.2 ⟨3⟩ matched
  rw [backing, Option.or_none] at linked ties
  have same : some (.linked ⟨3⟩ (some ⟨0⟩) 2) = some (AccessorLink.linked ⟨3⟩ stored _) :=
    ended.symm.trans (congrArg Except.toOption linked)
  simp only [Option.some.injEq, AccessorLink.linked.injEq, true_and] at same
  obtain ⟨rfl, counted⟩ := same
  rw [← counted] at linked
  rw [receives] at ties
  exact ⟨formed, ⟨entry, found, isMethod, declared⟩, matched, linked, _, counted.symm, ties⟩

end MemberGraph
