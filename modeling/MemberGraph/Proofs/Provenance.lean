import MemberGraph.Proofs.Recording

/-!
Where dependencies come from. A field or property starts with its own type. What a member gets later
is its own, or comes from a field or property of the same type: calls that an accessor shares with its
property, and the type of a field. A property that is stored in a field has what the field depends on,
and so has a method of its type, whatever links were made, replaced or refused before.
-/

set_option autoImplicit false

namespace MemberGraph

def Member.ownType (id : MemberId) (member : Member) : List Dependency :=
  if member.isField then [.onType .field id member.memberType]
  else if member.isProperty then [.onType .property id member.memberType]
  else []

theorem Member.Extends.ownType {member later : Member} (extended : member.Extends later)
    (id : MemberId) : later.ownType id = member.ownType id := by
  simp only [Member.ownType, extended.isField, extended.isProperty, extended.memberType]

theorem Member.isField_of_isMethod {member : Member} (isMethod : member.isMethod) :
    member.isField = false := by
  cases isField : member.isField with
  | false => rfl
  | true => rw [Member.isMethod_of_isField isField] at isMethod; cases isMethod

theorem Member.isField_of_isProperty {member : Member} (isProperty : member.isProperty) :
    member.isField = false := by
  cases isField : member.isField with
  | false => rfl
  | true => rw [Member.isProperty_of_isField isField] at isProperty; cases isProperty

private theorem Member.ownType_of_isMethod {member : Member} (isMethod : member.isMethod)
    (id : MemberId) :
    member.ownType id = [] := by
  simp [Member.ownType, Member.isField_of_isMethod isMethod, Member.isProperty_of_isMethod isMethod]

namespace Catalog

open Analysis

/-- How a member can have come to a dependency, beside its own type: it is a method that uses a type,
or calls a method; it is an accessor that shares a call with a property of its type; or a field of its
type passed its own type on. -/
inductive Traces (catalog : Catalog) (id : MemberId) (holder : Member) : Dependency → Prop where
  | use {use : TypeUse} (isMethod : holder.isMethod) (inMethod : use = .signature ∨ use = .body)
      (target : TypeId) : Traces catalog id holder (.onType use id target)
  | call (notField : holder.isField = false) (target : MemberId) :
      Traces catalog id holder (.call id target)
  | shared {property target : MemberId} {owner : Member} (isMethod : holder.isMethod)
      (found : catalog.member? property = some owner) (isProperty : owner.isProperty)
      (sameType : owner.declaringType = holder.declaringType)
      (there : .call property target ∈ recordedDependencies catalog property) :
      Traces catalog id holder (.call property target)
  | passed {field : MemberId} {stored : Member} (notField : holder.isField = false)
      (found : catalog.member? field = some stored) (isField : stored.isField)
      (sameType : stored.declaringType = holder.declaringType) :
      Traces catalog id holder (.onType .field field stored.memberType)

theorem DeclaredTogether.declaringType_eq {catalog : Catalog} {first second : MemberId}
    {one other : Member} (together : catalog.DeclaredTogether first second)
    (found : catalog.member? first = some one) (foundToo : catalog.member? second = some other) :
    one.declaringType = other.declaringType := by
  obtain ⟨left, right, leftFound, rightFound, sameType⟩ := together
  rw [found] at leftFound
  rw [foundToo] at rightFound
  cases leftFound
  cases rightFound
  exact sameType

/-- Every member has its own type and then what it can have come to. -/
def Traced (catalog : Catalog) : Prop :=
  ∀ id member, catalog.member? id = some member → ∃ gained,
    recordedDependencies catalog id = member.ownType id ++ gained ∧
      ∀ dependency ∈ gained, catalog.Traces id member dependency

def ShownBy (catalog : Catalog) (property : MemberId) (dependency : Dependency) : Prop :=
  dependency ∈ recordedDependencies catalog property ∧ ∃ accessor method,
    catalog.member? accessor = some method ∧ method.isMethod ∧
      catalog.DeclaredTogether accessor property ∧
      dependency ∈ recordedDependencies catalog accessor

/-- Whatever a backing field depends on is shown by its property. -/
def StorageShown (catalog : Catalog) : Prop :=
  ∀ property field, catalog.backingField? property = some field →
    ∀ dependency ∈ recordedDependencies catalog field, catalog.ShownBy property dependency

section Later

variable {old new : Catalog}

theorem recordedDependencies_eq {catalog : Catalog} {id : MemberId} {member : Member}
    (found : catalog.member? id = some member) :
    recordedDependencies catalog id = member.dependencies.toList := by
  simp [recordedDependencies, found]

theorem Extends.recorded (extended : old.Extends new) {id : MemberId} {dependency : Dependency}
    (there : dependency ∈ recordedDependencies old id) :
    dependency ∈ recordedDependencies new id := by
  obtain ⟨member, found, _⟩ := mem_recordedDependencies there
  obtain ⟨later, laterFound, memberExtended⟩ := extended.member? found
  rw [recordedDependencies_eq found] at there
  rw [recordedDependencies_eq laterFound]
  exact memberExtended.dependencies.subset there

theorem Traces.extended (extended : old.Extends new) {id : MemberId} {holder later : Member}
    (holderExtended : holder.Extends later) {dependency : Dependency}
    (traces : old.Traces id holder dependency) : new.Traces id later dependency := by
  cases traces with
  | use isMethod inMethod target =>
      exact .use (holderExtended.isMethod.trans isMethod) inMethod target
  | call notField target => exact .call (holderExtended.isField.trans notField) target
  | shared isMethod found isProperty sameType there =>
      obtain ⟨owner, ownerFound, ownerExtended⟩ := extended.member? found
      refine .shared (holderExtended.isMethod.trans isMethod) ownerFound
        (ownerExtended.isProperty.trans isProperty) ?_ (extended.recorded there)
      rw [ownerExtended.declaringType, holderExtended.declaringType, sameType]
  | passed notField found isField sameType =>
      obtain ⟨stored, storedFound, storedExtended⟩ := extended.member? found
      rw [← storedExtended.memberType]
      refine .passed (holderExtended.isField.trans notField) storedFound
        (storedExtended.isField.trans isField) ?_
      rw [storedExtended.declaringType, holderExtended.declaringType, sameType]

theorem ShownBy.extended (extended : old.Extends new) {property : MemberId}
    {dependency : Dependency} (shown : old.ShownBy property dependency) :
    new.ShownBy property dependency := by
  obtain ⟨there, accessor, method, found, isMethod, together, shared⟩ := shown
  obtain ⟨later, laterFound, memberExtended⟩ := extended.member? found
  exact ⟨extended.recorded there, accessor, later, laterFound,
    memberExtended.isMethod.trans isMethod, extended.declaredTogether together,
    extended.recorded shared⟩

/-- Dependencies can be traced in a later catalog if what members gained can, and if new members are
methods. -/
theorem Traced.later (traced : old.Traced) (extended : old.Extends new)
    (before : ∀ {id later}, new.member? id = some later →
      (∃ member, old.member? id = some member ∧ member.Extends later) ∨
        (old.member? id = none ∧ later.isMethod))
    (gains : ∀ {id later}, new.member? id = some later → ∃ gained,
      recordedDependencies new id = recordedDependencies old id ++ gained ∧
        ∀ dependency ∈ gained, new.Traces id later dependency) : new.Traced := by
  intro id later found
  obtain ⟨gained, recorded, traces⟩ := gains found
  rcases before found with ⟨member, there, memberExtended⟩ | ⟨missing, isMethod⟩
  · obtain ⟨first, recordedFirst, tracesFirst⟩ := traced id member there
    refine ⟨first ++ gained, ?_, fun dependency held => ?_⟩
    · rw [recorded, recordedFirst, memberExtended.ownType, List.append_assoc]
    · rcases List.mem_append.mp held with early | late
      · exact (tracesFirst dependency early).extended extended memberExtended
      · exact traces dependency late
  · refine ⟨gained, ?_, traces⟩
    rw [recorded, Member.ownType_of_isMethod isMethod]
    simp [recordedDependencies, missing]

theorem StorageShown.later (shown : old.StorageShown) (extended : old.Extends new)
    (paired : new.Paired)
    (same : ∀ {id field}, new.member? id = some field → field.isField →
      recordedDependencies new id = recordedDependencies old id)
    (links : ∀ {property field}, new.backingField? property = some field →
      old.backingField? property = some field ∨
        ∀ dependency ∈ recordedDependencies new field, new.ShownBy property dependency) :
    new.StorageShown := by
  intro property field stored dependency there
  rcases links stored with before | now
  · obtain ⟨member, found, isField⟩ := paired.field stored
    rw [same found isField] at there
    exact (shown property field before dependency there).extended extended
  · exact now dependency there

end Later

/-! ## Steps -/

section Steps

variable {policy : CallPolicy} {old new : Catalog}

theorem Traced.field {catalog : Catalog} (traced : catalog.Traced) {id : MemberId} {field : Member}
    (found : catalog.member? id = some field) (isField : field.isField) :
    recordedDependencies catalog id = [.onType .field id field.memberType] := by
  obtain ⟨gained, recorded, traces⟩ := traced id field found
  have none : gained = [] := by
    refine List.eq_nil_iff_forall_not_mem.mpr fun dependency there => ?_
    cases traces dependency there with
    | use isMethod => rw [Member.isMethod_of_isField isField] at isMethod; cases isMethod
    | call notField => rw [isField] at notField; cases notField
    | shared isMethod => rw [Member.isMethod_of_isField isField] at isMethod; cases isMethod
    | passed notField => rw [isField] at notField; cases notField
  rw [recorded, none, Member.ownType, if_pos isField, List.append_nil]

theorem Traced.field_dependencies {catalog : Catalog} (traced : catalog.Traced) {id : MemberId}
    {field : Member} (found : catalog.member? id = some field) (isField : field.isField) :
    field.dependencies = #[.onType .field id field.memberType] := by
  rw [← Array.toList_inj, ← recordedDependencies_eq found, traced.field found isField]

/-! ### What a step records can be traced -/

private theorem callsTo_traces {catalog : Catalog} {id : MemberId} {holder : Member}
    (notField : holder.isField = false) {targets : List (Option MemberId)} {dependency : Dependency}
    (there : dependency ∈ callsTo id targets) : catalog.Traces id holder dependency := by
  obtain ⟨target, _, rfl⟩ := mem_callsTo there
  exact .call notField target

private theorem inherited_traces {catalog : Catalog} (traced : catalog.Traced)
    (paired : catalog.Paired)
    (together : catalog.LinkedTogether) {property id : MemberId} {owner holder : Member}
    (found : catalog.member? property = some owner) (notField : holder.isField = false)
    (sameType : holder.declaringType = owner.declaringType) {dependency : Dependency}
    (there : dependency ∈ inherited catalog property) : catalog.Traces id holder dependency := by
  unfold inherited at there
  cases stored : catalog.backingField? property with
  | none =>
      rw [stored] at there
      cases there
  | some field =>
      obtain ⟨member, fieldFound, isField⟩ := paired.field stored
      have declared := (together property field stored).declaringType_eq found fieldFound
      rw [stored, Option.elim_some, traced.field fieldFound isField, List.mem_singleton] at there
      rw [there]
      exact .passed notField fieldFound isField (declared.symm.trans sameType.symm)

theorem Quiet.traced (quiet : Quiet policy old new) (traced : old.Traced) : new.Traced := by
  refine traced.later quiet.grows.extends ?_ ?_
  · intro id later found
    rcases quiet.grows.member?_before found with before | added
    · exact .inl before
    · exact .inr ⟨added.missing, added.isMethod⟩
  · intro id later found
    exact ⟨[], by rw [quiet.recorded, List.append_nil], fun _ there => by cases there⟩

theorem Traced.addDependencies {catalog : Catalog} (traced : catalog.Traced) {id : MemberId}
    {member : Member} (found : catalog.member? id = some member) {dependencies : List Dependency}
    (traces : ∀ dependency ∈ dependencies, catalog.Traces id member dependency) :
    (catalog.addDependencies id dependencies).Traced := by
  have extended : catalog.Extends (catalog.addDependencies id dependencies) :=
    extends_addDependencies id dependencies
  have before : ∀ {other later}, (catalog.addDependencies id dependencies).member? other = some later →
      ∃ first, catalog.member? other = some first ∧ first.Extends later :=
    fun there => (updated_addDependencies id dependencies).member?_before there
  refine traced.later extended (fun there => .inl (before there)) ?_
  intro other later there
  refine ⟨_, recordedDependencies_addDependencies (hasMember_of_member? found) dependencies other, ?_⟩
  intro dependency gained
  split at gained
  · next same =>
      subst same
      obtain ⟨first, firstFound, memberExtended⟩ := before there
      rw [found] at firstFound
      cases firstFound
      exact (traces dependency gained).extended extended memberExtended
  · cases gained

theorem addDependencies_comm {catalog : Catalog} {first second : MemberId} (different : first ≠ second)
    (some others : List Dependency) :
    (catalog.addDependencies first some).addDependencies second others =
      (catalog.addDependencies second others).addDependencies first some := by
  have apart : first.index ≠ second.index := by
    intro same
    apply different
    cases first
    cases second
    rw [MemberId.mk.injEq]
    exact same
  unfold Catalog.addDependencies updateMember
  congr 1
  apply Array.ext_getElem?
  intro index
  simp only [Array.getElem?_modify]
  by_cases here : first.index = index <;> by_cases there : second.index = index <;> simp_all

section Tied

variable {catalog : Catalog} {property accessor : MemberId} {owner method : Member}
  (found : catalog.member? property = some owner) (isProperty : owner.isProperty)
  (methodFound : catalog.member? accessor = some method) (isMethod : method.isMethod)
  (sameType : method.declaringType = owner.declaringType)
include found isProperty methodFound isMethod

private theorem accessor_ne_property : accessor ≠ property := by
  rintro rfl
  rw [found] at methodFound
  cases methodFound
  rw [Member.isProperty_of_isMethod isMethod] at isProperty
  cases isProperty

include sameType

/-- An accessor has its calls by way of its property, which therefore has to have them. -/
theorem tied_traced (traced : catalog.Traced) (paired : catalog.Paired)
    (together : catalog.LinkedTogether) (targets : List (Option MemberId)) :
    (catalog.recordTied property accessor targets).Traced := by
  unfold recordTied
  dsimp only
  rw [addDependencies_comm (accessor_ne_property found isProperty methodFound isMethod)]
  generalize givenEq : callsTo property targets ++ inherited catalog property = given
  have extended : catalog.Extends (catalog.addDependencies property given) :=
    extends_addDependencies property given
  have propertyHas : (catalog.addDependencies property given).Traced := by
    apply traced.addDependencies found
    intro dependency there
    have notField := Member.isField_of_isProperty isProperty
    rw [← givenEq] at there
    rcases List.mem_append.mp there with called | fromField
    · exact callsTo_traces notField called
    · exact inherited_traces traced paired together found notField rfl fromField
  obtain ⟨laterOwner, ownerFound, ownerExtended⟩ := extended.member? found
  obtain ⟨laterMethod, laterFound, methodExtended⟩ := extended.member? methodFound
  apply propertyHas.addDependencies laterFound
  intro dependency there
  have shared :
      dependency ∈ recordedDependencies (catalog.addDependencies property given) property := by
    rw [recordedDependencies_addDependencies (hasMember_of_member? found), if_pos rfl]
    exact List.mem_append_right _ there
  rw [← givenEq] at there
  rcases List.mem_append.mp there with called | fromField
  · obtain ⟨target, _, rfl⟩ := mem_callsTo called
    refine .shared (methodExtended.isMethod.trans isMethod) ownerFound
      (ownerExtended.isProperty.trans isProperty) ?_ shared
    rw [ownerExtended.declaringType, methodExtended.declaringType, sameType]
  · have traces : catalog.Traces accessor method dependency := inherited_traces traced paired
      together found (Member.isField_of_isMethod isMethod) sameType fromField
    exact traces.extended extended methodExtended

omit isProperty in
private theorem tied_shows {dependency : Dependency}
    (there : dependency ∈ inherited catalog property) (targets : List (Option MemberId)) :
    (catalog.recordTied property accessor targets).ShownBy property dependency := by
  unfold recordTied
  dsimp only
  have given : dependency ∈ callsTo property targets ++ inherited catalog property :=
    List.mem_append_right _ there
  generalize callsTo property targets ++ inherited catalog property = shared at given
  have extended : catalog.Extends (catalog.addDependencies accessor shared) :=
    extends_addDependencies accessor shared
  have extendedToo : (catalog.addDependencies accessor shared).Extends
      ((catalog.addDependencies accessor shared).addDependencies property shared) :=
    extends_addDependencies property shared
  obtain ⟨later, laterFound, memberExtended⟩ := (extended.trans extendedToo).member? methodFound
  refine ⟨?_, accessor, later, laterFound, memberExtended.isMethod.trans isMethod, ?_, ?_⟩
  · rw [recordedDependencies_addDependencies (extended.hasMember (hasMember_of_member? found)),
      if_pos rfl]
    exact List.mem_append_right _ given
  · exact (extended.trans extendedToo).declaredTogether ⟨method, owner, methodFound, found, sameType⟩
  · apply extendedToo.recorded
    rw [recordedDependencies_addDependencies (hasMember_of_member? methodFound), if_pos rfl]
    exact List.mem_append_right _ given

end Tied

theorem Recording.traced (recording : Recording policy old new) (paired : old.Paired)
    (together : old.LinkedTogether) (traced : old.Traced) : new.Traced := by
  cases recording with
  | lookUp quiet links => exact quiet.traced traced
  | own signature body targets found isMethod =>
      apply traced.addDependencies found
      intro dependency there
      rcases List.mem_append.mp there with used | called
      · rcases List.mem_append.mp used with inSignature | inBody
        · obtain ⟨target, _, rfl⟩ := List.mem_map.mp inSignature
          exact .use isMethod (.inl rfl) target
        · obtain ⟨target, _, rfl⟩ := List.mem_map.mp inBody
          exact .use isMethod (.inr rfl) target
      · exact callsTo_traces (Member.isField_of_isMethod isMethod) called
  | attach target found isProperty =>
      apply traced.addDependencies found
      intro dependency there
      rw [List.mem_singleton] at there
      rw [there]
      exact .call (Member.isField_of_isProperty isProperty) target
  | tie targets quiet elsewhere ownerFound isProperty methodFound isMethod sameType =>
      have relinked : Relinkings False old _ := quiet.grows.relinkings
      exact tied_traced ownerFound isProperty methodFound isMethod sameType
        (quiet.traced traced) (relinked.paired paired) (relinked.linkedTogether together) targets

/-! ### What a step shows -/

theorem Recording.extends (recording : Recording policy old new) : old.Extends new := by
  cases recording with
  | lookUp quiet => exact quiet.grows.extends
  | own => exact extends_addDependencies ..
  | attach => exact extends_addDependencies ..
  | tie targets quiet =>
      exact quiet.grows.extends.trans
        ((extends_addDependencies ..).trans (extends_addDependencies ..))

theorem field_addDependencies {catalog : Catalog} {id other : MemberId} {member later : Member}
    (found : catalog.member? id = some member) (notField : member.isField = false)
    {dependencies : List Dependency}
    (there : (catalog.addDependencies id dependencies).member? other = some later)
    (isField : later.isField) :
    recordedDependencies (catalog.addDependencies id dependencies) other =
        recordedDependencies catalog other ∧ catalog.member? other = some later := by
  have different : id ≠ other := by
    rintro rfl
    obtain ⟨before, beforeFound, extended⟩ :=
      (updated_addDependencies id dependencies).member?_before there
    rw [found] at beforeFound
    cases beforeFound
    rw [extended.isField, notField] at isField
    cases isField
  constructor
  · rw [recordedDependencies_addDependencies (hasMember_of_member? found), if_neg different,
      List.append_nil]
  · rwa [Catalog.addDependencies, member?_updateMember, if_neg different] at there

private theorem tied_field {catalog : Catalog} {property accessor id : MemberId}
    {owner method field : Member}
    (ownerFound : catalog.member? property = some owner) (isProperty : owner.isProperty)
    (methodFound : catalog.member? accessor = some method) (isMethod : method.isMethod)
    {targets : List (Option MemberId)}
    (found : (catalog.recordTied property accessor targets).member? id = some field)
    (isField : field.isField) :
    recordedDependencies (catalog.recordTied property accessor targets) id =
      recordedDependencies catalog id := by
  obtain ⟨later, laterFound, extended⟩ := (extends_addDependencies accessor
    (callsTo property targets ++ inherited catalog property)).member? ownerFound
  obtain ⟨same, before⟩ := field_addDependencies laterFound
    (extended.isField.trans (Member.isField_of_isProperty isProperty)) found isField
  obtain ⟨sameToo, _⟩ :=
    field_addDependencies methodFound (Member.isField_of_isMethod isMethod) before isField
  exact same.trans sameToo

theorem Recording.field (recording : Recording policy old new) {id : MemberId} {field : Member}
    (found : new.member? id = some field) (isField : field.isField) :
    recordedDependencies new id = recordedDependencies old id := by
  cases recording with
  | lookUp quiet => rw [quiet.recorded]
  | own signature body targets methodFound isMethod =>
      exact (field_addDependencies methodFound (Member.isField_of_isMethod isMethod) found isField).1
  | attach target ownerFound isProperty =>
      exact (field_addDependencies ownerFound (Member.isField_of_isProperty isProperty) found
        isField).1
  | tie targets quiet elsewhere ownerFound isProperty methodFound isMethod sameType =>
      rw [tied_field ownerFound isProperty methodFound isMethod found isField, quiet.recorded]

private theorem Recording.storageShown (recording : Recording policy old new) (paired : new.Paired)
    (shown : old.StorageShown) : new.StorageShown := by
  refine shown.later recording.extends paired recording.field ?_
  intro property field stored
  cases recording with
  | lookUp quiet links => exact .inl (links property ▸ stored)
  | own => exact .inl (backingField?_addDependencies .. ▸ stored)
  | attach => exact .inl (backingField?_addDependencies .. ▸ stored)
  | @tie between tiedProperty accessor owner method targets quiet elsewhere ownerFound isProperty
      methodFound isMethod sameType =>
      have linked : between.backingField? property = some field := by
        rwa [recordTied, backingField?_addDependencies, backingField?_addDependencies] at stored
      by_cases here : property = tiedProperty
      · subst here
        obtain ⟨member, found, isField⟩ := paired.field stored
        refine .inr fun dependency there => ?_
        rw [tied_field ownerFound isProperty methodFound isMethod found isField] at there
        apply tied_shows ownerFound methodFound isMethod sameType
        rwa [inherited, linked]
      · exact .inl (elsewhere property here ▸ linked)

end Steps

/-! ## Runs -/

/-- Dependencies can be traced and backing fields are shown, and both will stay so. -/
structure Provenance (catalog : Catalog) : Prop where
  paired : catalog.Paired
  together : catalog.LinkedTogether
  traced : catalog.Traced
  shown : catalog.StorageShown

theorem Provenance.recording {policy : CallPolicy} {old new : Catalog} (provenance : old.Provenance)
    (recording : Recording policy old new) : new.Provenance := by
  have paired := recording.relinkings.paired provenance.paired
  exact ⟨paired, recording.relinkings.linkedTogether provenance.together,
    recording.traced provenance.paired provenance.together provenance.traced,
    recording.storageShown paired provenance.shown⟩

theorem Provenance.recordings {policy : CallPolicy} {old new : Catalog} (provenance : old.Provenance)
    (recordings : Recordings policy old new) : new.Provenance := by
  induction recordings with
  | refl => exact provenance
  | tail _ recording before => exact before.recording recording

theorem Mirrors.recorded {old new : Catalog} {held : List (TypeId × Dependency)}
    (mirrors : old.Mirrors held new) : recordedDependencies new = recordedDependencies old := by
  funext id
  unfold recordedDependencies
  rw [mirrors.member?]
  cases old.member? id <;> rfl

theorem Provenance.mirrored {old new : Catalog} {held : List (TypeId × Dependency)}
    (provenance : old.Provenance) (mirrors : old.Mirrors held new) : new.Provenance := by
  have relinked : Relinking False old new := .of_linkState mirrors.linkState
  have paired := relinked.paired provenance.paired
  refine ⟨paired, relinked.linkedTogether provenance.together, ?_, ?_⟩
  · refine provenance.traced.later mirrors.extends ?_ ?_
    · intro id later found
      obtain ⟨member, backwards, there, rfl⟩ := mirrors.member?_before found
      obtain ⟨same, sameFound, extended⟩ := mirrors.extends.member? there
      rw [found] at sameFound
      cases sameFound
      exact .inl ⟨member, there, extended⟩
    · intro id later found
      exact ⟨[], by rw [mirrors.recorded, List.append_nil], fun _ there => by cases there⟩
  · refine provenance.shown.later mirrors.extends paired (fun _ _ => by rw [mirrors.recorded]) ?_
    intro property field stored
    rw [backingField?_congr (mirrors.linkState property)] at stored
    exact .inl stored

end Catalog

namespace Analysis

open Catalog

theorem IsEntry.ownType {on : TypeId} {definition : MemberDefinition} {member : Member}
    (isEntry : IsEntry on definition member) :
    member.dependencies.toList = member.ownType member.id := by
  cases isEntry <;> rfl

theorem allocated_provenance (metadata : Metadata) :
    (allocate {} metadata).2.catalog.Provenance := by
  refine ⟨allocated_paired metadata, allocated_linkedTogether metadata, ?_, ?_⟩
  · intro id member found
    obtain ⟨definition, isEntry⟩ := allocated_isEntry metadata
      (Array.mem_toList_iff.mpr (Array.mem_of_getElem? found))
    refine ⟨[], ?_, fun _ there => by cases there⟩
    rw [recordedDependencies_eq found, isEntry.ownType,
      (allocated_wellFormed metadata).memberId found, List.append_nil]
  · intro property field stored
    rw [allocated_backingField?] at stored
    cases stored

theorem built_provenance {options : Options} {metadata : Metadata} {architecture : Architecture}
    (built : (Architecture.build options metadata).1 = .ok architecture) :
    architecture.catalog.Provenance := by
  obtain ⟨succeeded, held, mirrors⟩ := build_mirrors built
  exact ((allocated_provenance metadata).recordings (extracted_records succeeded)).mirrored mirrors

end Analysis

/-! ## Builds -/

open Catalog

/-- Where a dependency that a member holds comes from, by its kind. -/
structure Dependency.ComesFrom (dependency : Dependency) (id : MemberId) (holder origin : Member) :
    Prop where
  sameType : origin.declaringType = holder.declaringType
  ofMethod : dependency.kind = .typeUse .signature ∨ dependency.kind = .typeUse .body →
    dependency.origin = id ∧ holder.isMethod
  ofProperty : dependency.kind = .typeUse .property →
    dependency = .onType .property id holder.memberType ∧ holder.isProperty ∧
      holder.dependencies[0]? = some dependency ∧
      holder.dependencies.toList.filter (·.kind = .typeUse .property) = [dependency]
  ofField : dependency.kind = .typeUse .field →
    origin.isField ∧ dependency = .onType .field dependency.origin origin.memberType ∧
      (dependency.origin = id ∧ holder.dependencies = #[dependency] ∨ holder.isProperty ∨
        holder.isMethod)
  ofCall : dependency.kind = .call → (holder.isMethod ∨ holder.isProperty) ∧
    (dependency.origin = id ∨
      holder.isMethod ∧ origin.isProperty ∧ dependency ∈ origin.dependencies)

private theorem Member.isProperty_or_isMethod {member : Member}
    (notField : member.isField = false) :
    member.isProperty ∨ member.isMethod := by
  unfold Member.isField at notField
  unfold Member.isProperty Member.property? Member.isMethod Member.method?
  cases role : member.role <;> simp_all

namespace Catalog

variable {catalog : Catalog}

theorem Traces.comesFrom {id : MemberId} {holder : Member} (found : catalog.member? id = some holder)
    {dependency : Dependency} (traces : catalog.Traces id holder dependency) :
    ∃ origin, catalog.member? dependency.origin = some origin ∧
      dependency.ComesFrom id holder origin := by
  cases traces with
  | use isMethod inMethod target =>
      refine ⟨holder, found, ⟨rfl, fun _ => ⟨rfl, isMethod⟩, ?_, ?_, ?_⟩⟩
      · rcases inMethod with rfl | rfl <;> intro kind <;> cases kind
      · rcases inMethod with rfl | rfl <;> intro kind <;> cases kind
      · intro kind
        cases kind
  | call notField target =>
      refine ⟨holder, found, ⟨rfl, by simp [Dependency.kind], by simp [Dependency.kind],
        by simp [Dependency.kind], fun _ => ⟨?_, .inl rfl⟩⟩⟩
      exact (Member.isProperty_or_isMethod notField).symm
  | shared isMethod ownerFound isProperty sameType there =>
      refine ⟨_, ownerFound, ⟨sameType, by simp [Dependency.kind], by simp [Dependency.kind],
        by simp [Dependency.kind], fun _ => ⟨.inl isMethod, .inr ⟨isMethod, isProperty, ?_⟩⟩⟩⟩
      rwa [recordedDependencies_eq ownerFound, Array.mem_toList_iff] at there
  | passed notField fieldFound isField sameType =>
      exact ⟨_, fieldFound, ⟨sameType, by simp [Dependency.kind], by simp [Dependency.kind],
        fun _ => ⟨isField, rfl, .inr (Member.isProperty_or_isMethod notField)⟩,
        by simp [Dependency.kind]⟩⟩

private theorem Traces.kind_ne {id : MemberId} {holder : Member} {dependency : Dependency}
    (traces : catalog.Traces id holder dependency) : dependency.kind ≠ .typeUse .property := by
  cases traces with
  | use isMethod inMethod target => rcases inMethod with rfl | rfl <;> simp [Dependency.kind]
  | call | shared | passed => simp [Dependency.kind]

theorem Traced.property (traced : catalog.Traced) {id : MemberId} {holder : Member}
    (found : catalog.member? id = some holder) (isProperty : holder.isProperty) :
    holder.dependencies[0]? = some (.onType .property id holder.memberType) ∧
      holder.dependencies.toList.filter (·.kind = .typeUse .property) =
        [.onType .property id holder.memberType] := by
  obtain ⟨gained, recorded, traces⟩ := traced id holder found
  have others : gained.filter (·.kind = .typeUse .property) = [] := by
    refine List.filter_eq_nil_iff.mpr fun dependency there => ?_
    simpa using (traces dependency there).kind_ne
  rw [recordedDependencies_eq found, Member.ownType,
    if_neg (by simp [Member.isField_of_isProperty isProperty]), if_pos isProperty] at recorded
  constructor
  · rw [← Array.getElem?_toList, recorded]
    rfl
  · rw [recorded, List.filter_append, others]
    rfl

theorem Traced.comesFrom (traced : catalog.Traced) {id : MemberId} {holder : Member}
    (found : catalog.member? id = some holder) {dependency : Dependency}
    (there : dependency ∈ holder.dependencies) :
    ∃ origin, catalog.member? dependency.origin = some origin ∧
      dependency.ComesFrom id holder origin := by
  obtain ⟨gained, recorded, traces⟩ := traced id holder found
  rw [← Array.mem_toList_iff, ← recordedDependencies_eq found, recorded] at there
  rcases List.mem_append.mp there with own | late
  · unfold Member.ownType at own
    split at own
    · next isField =>
        rw [List.mem_singleton] at own
        subst own
        refine ⟨holder, found, ⟨rfl, by simp [Dependency.kind], by simp [Dependency.kind], ?_,
          by simp [Dependency.kind]⟩⟩
        exact fun _ => ⟨isField, rfl, .inl ⟨rfl, traced.field_dependencies found isField⟩⟩
    · split at own
      · next isProperty =>
          rw [List.mem_singleton] at own
          subst own
          obtain ⟨first, only⟩ := traced.property found isProperty
          exact ⟨holder, found, ⟨rfl, by simp [Dependency.kind],
            fun _ => ⟨rfl, isProperty, first, only⟩, by simp [Dependency.kind],
            by simp [Dependency.kind]⟩⟩
      · cases own
  · exact (traces dependency late).comesFrom found

end Catalog

/-- Every dependency that a member holds comes from a member of the same type: from itself, from a
field that passes its type on, or from a property that shares a call with its accessors. So the
dependency between types that it amounts to starts at the type of its origin. -/
theorem dependencies_traceable {options : Options} {metadata : Metadata}
    {architecture : Architecture}
    (built : (Architecture.build options metadata).1 = .ok architecture) :
    let catalog := architecture.catalog
    (∀ id holder, catalog.member? id = some holder →
      (holder.isField → holder.dependencies = #[.onType .field id holder.memberType]) ∧
      (holder.isProperty →
        holder.dependencies[0]? = some (.onType .property id holder.memberType)) ∧
      ∀ dependency ∈ holder.dependencies, ∃ origin,
        catalog.member? dependency.origin = some origin ∧ dependency.ComesFrom id holder origin) ∧
    ∀ on entry, catalog.type? on = some entry → ∀ crossing,
      crossing ∈ entry.dependencies ∨ crossing ∈ entry.backwards → ∃ origin,
        catalog.member? crossing.via.origin = some origin ∧
          crossing.origin = origin.declaringType ∧ crossing.kind = crossing.via.kind := by
  intro catalog
  have traced := (Analysis.built_provenance built).traced
  constructor
  · intro id holder found
    exact ⟨traced.field_dependencies found, fun isProperty => (traced.property found isProperty).1,
      fun dependency there => traced.comesFrom found there⟩
  · intro on entry found crossing listed
    have crosses : crossing ∈ catalog.crossings := by
      obtain ⟨forward, backward⟩ := Analysis.built_crossings built found
      simp only [← Array.mem_toList_iff, forward, backward] at listed
      split at listed
      · rcases listed with there | there <;> exact (List.mem_filter.mp there).1
      · rcases listed with there | there <;> cases there
    obtain ⟨holder, there, held, leaves, kind⟩ := crossings_held crosses
    have holderFound := (Analysis.built_wellFormed built).member?_of_mem there
    obtain ⟨origin, originFound, comesFrom⟩ := traced.comesFrom holderFound held
    exact ⟨origin, originFound, leaves.trans comesFrom.sameType.symm, kind⟩

theorem dependencies_traceable_account :
    ∃ architecture, (Architecture.build {} accountMetadata).1 = .ok architecture ∧
      ∃ getter, architecture.catalog.member? ⟨1⟩ = some getter ∧
        .call ⟨5⟩ ⟨2⟩ ∈ getter.dependencies ∧
        ∃ property, architecture.catalog.member? ⟨5⟩ = some property ∧
          property.declaringType = getter.declaringType ∧ property.isProperty ∧
          .call ⟨5⟩ ⟨2⟩ ∈ property.dependencies := by
  obtain ⟨architecture, built, evaluated⟩ := @Analysis.build_passes {} accountMetadata
    (fun architecture => (architecture.catalog.member? ⟨1⟩).any fun getter =>
      getter.dependencies.contains (.call ⟨5⟩ ⟨2⟩))
    (by decide +kernel)
  obtain ⟨getter, found, holds⟩ := (Option.any_eq_true _ _).mp evaluated
  have there := Array.contains_iff_mem.mp holds
  obtain ⟨property, propertyFound, comesFrom⟩ :=
    ((dependencies_traceable built).1 ⟨1⟩ getter found).2.2 _ there
  have ofCall := comesFrom.ofCall rfl
  simp only [Dependency.origin, MemberId.mk.injEq] at ofCall
  obtain ⟨_, isProperty, shared⟩ := ofCall.2.resolve_left (by decide)
  exact ⟨architecture, built, getter, found, there, property, propertyFound, comesFrom.sameType,
    isProperty, shared⟩

/-- What a backing field depends on, its property and a method of the same type depend on as well.
That is so at the end, whichever links were made, replaced and refused before. -/
theorem backing_field_shown {options : Options} {metadata : Metadata} {architecture : Architecture}
    (built : (Architecture.build options metadata).1 = .ok architecture)
    {property field : MemberId} {owner : Member} {links : PropertyLinks}
    (found : architecture.catalog.member? property = some owner)
    (isProperty : owner.property? = some links) (linked : links.backingField = some field) :
    ∃ stored, architecture.catalog.member? field = some stored ∧ stored.isField ∧
      stored.dependencies = #[.onType .field field stored.memberType] ∧
      ∀ dependency ∈ stored.dependencies, dependency ∈ owner.dependencies ∧
        ∃ id method, architecture.catalog.member? id = some method ∧ method.isMethod ∧
          method.declaringType = owner.declaringType ∧ dependency ∈ method.dependencies := by
  have provenance := Analysis.built_provenance built
  have backing : architecture.catalog.backingField? property = some field :=
    backingField?_eq_some_iff.mpr ⟨owner, links, found, isProperty, linked⟩
  obtain ⟨stored, fieldFound, isField⟩ := provenance.paired.field backing
  refine ⟨stored, fieldFound, isField, provenance.traced.field_dependencies fieldFound isField,
    fun dependency there => ?_⟩
  rw [← Array.mem_toList_iff, ← recordedDependencies_eq fieldFound] at there
  obtain ⟨shown, id, method, methodFound, isMethod, together, shared⟩ :=
    provenance.shown property field backing dependency there
  rw [recordedDependencies_eq found, Array.mem_toList_iff] at shown
  rw [recordedDependencies_eq methodFound, Array.mem_toList_iff] at shared
  exact ⟨shown, id, method, methodFound, isMethod, together.declaringType_eq methodFound found,
    shared⟩

theorem backing_field_shown_account :
    ∃ architecture, (Architecture.build {} accountMetadata).1 = .ok architecture ∧
      ∃ owner links, architecture.catalog.member? ⟨5⟩ = some owner ∧
        owner.property? = some links ∧ links.backingField = some ⟨0⟩ ∧
        ∃ stored, architecture.catalog.member? ⟨0⟩ = some stored ∧
          .onType .field ⟨0⟩ stored.memberType ∈ owner.dependencies ∧
          ∃ id method, architecture.catalog.member? id = some method ∧ method.isMethod ∧
            .onType .field ⟨0⟩ stored.memberType ∈ method.dependencies := by
  obtain ⟨architecture, built, evaluated⟩ := @Analysis.build_passes {} accountMetadata
    (fun architecture => architecture.catalog.backingField? ⟨5⟩ = some ⟨0⟩) (by decide +kernel)
  obtain ⟨owner, links, found, isProperty, linked⟩ :=
    backingField?_eq_some_iff.mp (of_decide_eq_true evaluated)
  obtain ⟨stored, fieldFound, _, only, shown⟩ := backing_field_shown built found isProperty linked
  obtain ⟨inOwner, id, method, methodFound, isMethod, _, inMethod⟩ :=
    shown (.onType .field ⟨0⟩ stored.memberType) (by rw [only]; exact Array.mem_singleton.mpr rfl)
  exact ⟨architecture, built, owner, links, found, isProperty, linked, stored, fieldFound, inOwner,
    id, method, methodFound, isMethod, inMethod⟩

end MemberGraph
