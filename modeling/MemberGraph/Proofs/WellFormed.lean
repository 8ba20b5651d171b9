import MemberGraph.Proofs.Extension

/-!
The representation invariant of a catalog: ids are positions, the two indexes are the inverses of
the full names, the member lists of the types partition the members, and every id that is stored
anywhere leads to an entry. Each elementary change keeps it.
-/

set_option autoImplicit false

namespace MemberGraph.Catalog

/-! ## Stored ids -/

def Knows (catalog : Catalog) : Dependency → Prop
  | .onType _ origin target => catalog.hasMember origin ∧ catalog.hasType target
  | .call origin target => catalog.hasMember origin ∧ catalog.hasMember target

def KnowsBetween (catalog : Catalog) (dependency : TypeDependency) : Prop :=
  catalog.hasType dependency.origin ∧ catalog.hasType dependency.target ∧
    catalog.Knows dependency.via

def KnowsRole (catalog : Catalog) : MemberRole → Prop
  | .method traits =>
    (∀ id ∈ traits.parameters, catalog.hasType id) ∧
      ∀ id ∈ traits.genericParameters, catalog.hasType id
  | .field backed => ∀ id ∈ backed, catalog.hasMember id
  | .property links =>
    (∀ id ∈ links.getter, catalog.hasMember id) ∧ (∀ id ∈ links.setter, catalog.hasMember id) ∧
      ∀ id ∈ links.backingField, catalog.hasMember id

structure KnowsMember (catalog : Catalog) (member : Member) : Prop where
  declaringType : catalog.hasType member.declaringType
  memberType : catalog.hasType member.memberType
  role : catalog.KnowsRole member.role
  dependencies : ∀ dependency ∈ member.dependencies, catalog.Knows dependency
  backwards : ∀ dependency ∈ member.backwards, catalog.Knows dependency

structure KnowsType (catalog : Catalog) (entry : TypeEntry) : Prop where
  dependencies : ∀ dependency ∈ entry.dependencies, catalog.KnowsBetween dependency
  backwards : ∀ dependency ∈ entry.backwards, catalog.KnowsBetween dependency

/-- The accessors of a property are methods of its own type. -/
def OwnAccessors (catalog : Catalog) (member : Member) : Prop :=
  ∀ links, member.property? = some links →
    ∀ accessor, links.getter = some accessor ∨ links.setter = some accessor →
      ∃ method, catalog.member? accessor = some method ∧ method.isMethod ∧
        method.declaringType = member.declaringType

structure Covers (old new : Catalog) : Prop where
  hasType : ∀ {id}, old.hasType id → new.hasType id
  hasMember : ∀ {id}, old.hasMember id → new.hasMember id

theorem Extends.covers {old new : Catalog} (extended : old.Extends new) : old.Covers new :=
  ⟨extended.hasType, extended.hasMember⟩

section Covers

variable {old new : Catalog} (covers : old.Covers new)
include covers

theorem Knows.covered {dependency : Dependency} (known : old.Knows dependency) :
    new.Knows dependency := by
  cases dependency with
  | onType use origin target => exact ⟨covers.hasMember known.1, covers.hasType known.2⟩
  | call origin target => exact ⟨covers.hasMember known.1, covers.hasMember known.2⟩

theorem KnowsBetween.covered {dependency : TypeDependency} (known : old.KnowsBetween dependency) :
    new.KnowsBetween dependency :=
  ⟨covers.hasType known.1, covers.hasType known.2.1, known.2.2.covered covers⟩

theorem KnowsRole.covered {role : MemberRole} (known : old.KnowsRole role) :
    new.KnowsRole role := by
  cases role with
  | method traits =>
      exact ⟨fun id there => covers.hasType (known.1 id there),
        fun id there => covers.hasType (known.2 id there)⟩
  | field backed => exact fun id there => covers.hasMember (known id there)
  | property links =>
      exact ⟨fun id there => covers.hasMember (known.1 id there),
        fun id there => covers.hasMember (known.2.1 id there),
        fun id there => covers.hasMember (known.2.2 id there)⟩

theorem KnowsMember.covered {member : Member} (known : old.KnowsMember member) :
    new.KnowsMember member where
  declaringType := covers.hasType known.declaringType
  memberType := covers.hasType known.memberType
  role := known.role.covered covers
  dependencies dependency there := (known.dependencies dependency there).covered covers
  backwards dependency there := (known.backwards dependency there).covered covers

theorem KnowsType.covered {entry : TypeEntry} (known : old.KnowsType entry) :
    new.KnowsType entry where
  dependencies dependency there := (known.dependencies dependency there).covered covers
  backwards dependency there := (known.backwards dependency there).covered covers

end Covers

/-! ## The invariant -/

/-- A name leads to the one type that has it. -/
structure TypesIndexed (catalog : Catalog) : Prop where
  typeNamed?_iff : ∀ {name id}, catalog.typeNamed? name = some id ↔
    ∃ entry, catalog.type? id = some entry ∧ entry.fullName = name

/-- A catalog as its operations leave it. -/
structure WellFormed (catalog : Catalog) : Prop where
  typeId : ∀ {id entry}, catalog.type? id = some entry → entry.id = id
  memberId : ∀ {id member}, catalog.member? id = some member → member.id = id
  typeNamed?_iff : ∀ {name id}, catalog.typeNamed? name = some id ↔
    ∃ entry, catalog.type? id = some entry ∧ entry.fullName = name
  memberNamed?_iff : ∀ {name id}, catalog.memberNamed? name = some id ↔
    ∃ member, catalog.member? id = some member ∧ member.fullName = name
  /-- A type lists the members that it declares, and no others. -/
  mem_members_iff : ∀ {on entry}, catalog.type? on = some entry → ∀ {id}, id ∈ entry.members ↔
    ∃ member, catalog.member? id = some member ∧ member.declaringType = on
  increasing : ∀ {on entry}, catalog.type? on = some entry →
    entry.members.toList.Pairwise (·.index < ·.index)
  knowsType : ∀ {id entry}, catalog.type? id = some entry → catalog.KnowsType entry
  knowsMember : ∀ {id member}, catalog.member? id = some member → catalog.KnowsMember member
  ownAccessors : ∀ {id member}, catalog.member? id = some member → catalog.OwnAccessors member

theorem wellFormed_empty : empty.WellFormed := by
  constructor <;> simp [empty, type?, member?, typeNamed?, memberNamed?]

namespace WellFormed

variable {catalog : Catalog}

theorem typesIndexed (formed : catalog.WellFormed) : catalog.TypesIndexed :=
  ⟨formed.typeNamed?_iff⟩

theorem member?_inj (formed : catalog.WellFormed) {first second : MemberId} {left right : Member}
    (atFirst : catalog.member? first = some left) (atSecond : catalog.member? second = some right)
    (same : left.fullName = right.fullName) : first = second := by
  have named := formed.memberNamed?_iff.mpr ⟨left, atFirst, same⟩
  have namedToo := formed.memberNamed?_iff.mpr ⟨right, atSecond, rfl⟩
  exact Option.some.inj (named.symm.trans namedToo)

theorem typeNamed?_inj (formed : catalog.WellFormed) {name other : String} {first second : TypeId}
    (named : catalog.typeNamed? name = some first)
    (namedToo : catalog.typeNamed? other = some second) : first = second ↔ name = other := by
  constructor
  · rintro rfl
    obtain ⟨entry, found, rfl⟩ := formed.typeNamed?_iff.mp named
    obtain ⟨same, there, rfl⟩ := formed.typeNamed?_iff.mp namedToo
    rw [found] at there
    cases there
    rfl
  · rintro rfl
    exact Option.some.inj (named.symm.trans namedToo)

theorem hasType_of_named (formed : catalog.WellFormed) {name : String} {id : TypeId}
    (named : catalog.typeNamed? name = some id) : catalog.hasType id := by
  obtain ⟨entry, found, _⟩ := formed.typeNamed?_iff.mp named
  exact hasType_of_type? found

theorem hasMember_of_named (formed : catalog.WellFormed) {name : String} {id : MemberId}
    (named : catalog.memberNamed? name = some id) : catalog.hasMember id := by
  obtain ⟨member, found, _⟩ := formed.memberNamed?_iff.mp named
  exact hasMember_of_member? found

end WellFormed

/-! ## Updates -/

private theorem rel_some_left {α : Type} {related : α → α → Prop} {first : α} {other : Option α}
    (holds : Option.Rel related (some first) other) :
    ∃ second, other = some second ∧ related first second := by
  cases holds with
  | some holds => exact ⟨_, rfl, holds⟩

private theorem rel_some_right {α : Type} {related : α → α → Prop} {other : Option α} {second : α}
    (holds : Option.Rel related other (some second)) :
    ∃ first, other = some first ∧ related first second := by
  cases holds with
  | some holds => exact ⟨_, rfl, holds⟩

private theorem rel_of_map {α : Type} {related : α → α → Prop} {change : α → α} {value : Option α}
    (holds : ∀ first, value = some first → related first (change first)) :
    Option.Rel related value (value.map change) := by
  cases value with
  | none => exact .none
  | some first => exact .some (holds first rfl)

private theorem rel_self {α : Type} {related : α → α → Prop}
    (reflexive : ∀ value, related value value)
    (value : Option α) : Option.Rel related value value := by
  cases value with
  | none => exact .none
  | some first => exact .some (reflexive first)

private theorem rel_trans {α : Type} {related : α → α → Prop}
    (transitive : ∀ {one two three}, related one two → related two three → related one three)
    {first second third : Option α} (before : Option.Rel related first second)
    (after : Option.Rel related second third) : Option.Rel related first third := by
  cases before with
  | none => exact after
  | some before =>
      cases after with
      | some after => exact .some (transitive before after)

structure SameMembers (old new : TypeEntry) : Prop where
  id : new.id = old.id
  fullName : new.fullName = old.fullName
  members : new.members = old.members

/-- The second catalog is the first with entries updated at their places. -/
structure Updated (old new : Catalog) : Prop where
  typeNamed? : ∀ name, new.typeNamed? name = old.typeNamed? name
  memberNamed? : ∀ name, new.memberNamed? name = old.memberNamed? name
  types : ∀ id, Option.Rel SameMembers (old.type? id) (new.type? id)
  members : ∀ id, Option.Rel Member.Extends (old.member? id) (new.member? id)

namespace Updated

variable {old new : Catalog}

theorem type? (updated : old.Updated new) {id : TypeId} {entry : TypeEntry}
    (found : old.type? id = some entry) :
    ∃ later, new.type? id = some later ∧ SameMembers entry later :=
  rel_some_left (found ▸ updated.types id)

theorem type?_before (updated : old.Updated new) {id : TypeId} {later : TypeEntry}
    (found : new.type? id = some later) :
    ∃ entry, old.type? id = some entry ∧ SameMembers entry later :=
  rel_some_right (found ▸ updated.types id)

theorem member? (updated : old.Updated new) {id : MemberId} {member : Member}
    (found : old.member? id = some member) :
    ∃ later, new.member? id = some later ∧ member.Extends later :=
  rel_some_left (found ▸ updated.members id)

theorem member?_before (updated : old.Updated new) {id : MemberId} {later : Member}
    (found : new.member? id = some later) :
    ∃ member, old.member? id = some member ∧ member.Extends later :=
  rel_some_right (found ▸ updated.members id)

theorem refl (catalog : Catalog) : catalog.Updated catalog where
  typeNamed? _ := rfl
  memberNamed? _ := rfl
  types _ := rel_self (fun _ => ⟨rfl, rfl, rfl⟩) _
  members _ := rel_self Member.Extends.refl _

theorem trans {first second third : Catalog} (before : first.Updated second)
    (after : second.Updated third) : first.Updated third where
  typeNamed? name := (after.typeNamed? name).trans (before.typeNamed? name)
  memberNamed? name := (after.memberNamed? name).trans (before.memberNamed? name)
  types id := rel_trans (fun one two => ⟨two.id.trans one.id, two.fullName.trans one.fullName,
    two.members.trans one.members⟩) (before.types id) (after.types id)
  members id := rel_trans (fun one two => one.trans two) (before.members id) (after.members id)

theorem covers (updated : old.Updated new) : old.Covers new where
  hasType known := by
    obtain ⟨entry, found⟩ := hasType_iff.mp known
    obtain ⟨later, there, _⟩ := updated.type? found
    exact hasType_of_type? there
  hasMember known := by
    obtain ⟨member, found⟩ := hasMember_iff.mp known
    obtain ⟨later, there, _⟩ := updated.member? found
    exact hasMember_of_member? there

end Updated

theorem updated_updateType {catalog : Catalog} {id : TypeId} {change : TypeEntry → TypeEntry}
    (kept : ∀ entry, catalog.type? id = some entry → SameMembers entry (change entry)) :
    catalog.Updated (catalog.updateType id change) where
  typeNamed? _ := rfl
  memberNamed? _ := rfl
  types other := by
    rw [type?_updateType]
    split
    · next same => exact rel_of_map fun entry found => kept entry (same ▸ found)
    · exact rel_self (fun _ => ⟨rfl, rfl, rfl⟩) _
  members other := rel_self Member.Extends.refl _

theorem updated_updateMember {catalog : Catalog} {id : MemberId} {change : Member → Member}
    (kept : ∀ member, catalog.member? id = some member → member.Extends (change member)) :
    catalog.Updated (catalog.updateMember id change) where
  typeNamed? _ := rfl
  memberNamed? _ := rfl
  types other := rel_self (fun _ => ⟨rfl, rfl, rfl⟩) _
  members other := by
    rw [member?_updateMember]
    split
    · next same => exact rel_of_map fun member found => kept member (same ▸ found)
    · exact rel_self Member.Extends.refl _

theorem updated_addDependencies {catalog : Catalog} (id : MemberId)
    (dependencies : List Dependency) : catalog.Updated (catalog.addDependencies id dependencies) :=
  updated_updateMember fun member _ => by constructor <;> simp

theorem updated_addBackwards {catalog : Catalog} (id : MemberId) (dependency : Dependency) :
    catalog.Updated (catalog.addBackwards id dependency) :=
  updated_updateMember fun member _ => by constructor <;> simp

theorem updated_addTypeDependency {catalog : Catalog} (dependency : TypeDependency) :
    catalog.Updated (catalog.addTypeDependency dependency) := by
  have target : catalog.Updated (catalog.updateType dependency.target fun entry =>
      { entry with backwards := entry.backwards.push dependency }) :=
    updated_updateType fun _ _ => ⟨rfl, rfl, rfl⟩
  exact target.trans (updated_updateType fun _ _ => ⟨rfl, rfl, rfl⟩)

theorem updated_freePrevious {catalog : Catalog} (previous : Option MemberId) (field : MemberId) :
    catalog.Updated (catalog.freePrevious previous field) := by
  unfold freePrevious
  split
  · split
    · exact .refl _
    · exact updated_updateMember fun member _ => member.extends_withBackedProperty none
  · exact .refl _

theorem updated_linkBacking {catalog : Catalog} (property field : MemberId) :
    catalog.Updated (catalog.linkBacking property field).2 :=
  linkBacking_induction
    (fun _ _ relinked before =>
      before.trans (updated_updateMember fun member _ => (relinked member).extends))
    (.refl _) property field

theorem TypesIndexed.of_updated {old new : Catalog} (indexed : old.TypesIndexed)
    (updated : old.Updated new) : new.TypesIndexed := by
  refine ⟨fun {name id} => ?_⟩
  rw [updated.typeNamed?, indexed.typeNamed?_iff]
  constructor
  · rintro ⟨entry, found, named⟩
    obtain ⟨later, there, same⟩ := updated.type? found
    exact ⟨later, there, same.fullName.trans named⟩
  · rintro ⟨later, found, named⟩
    obtain ⟨entry, there, same⟩ := updated.type?_before found
    exact ⟨entry, there, same.fullName.symm.trans named⟩

theorem TypesIndexed.addType {catalog : Catalog} (indexed : catalog.TypesIndexed)
    {reference : TypeReference} {kind : TypeKind} {visibility : Visibility} {isStub : Bool}
    (fresh : catalog.typeNamed? reference.fullName = none) :
    (catalog.addType reference kind visibility isStub).2.TypesIndexed := by
  refine ⟨fun {name id} => ?_⟩
  simp only [type?_addType_iff, typeNamed?_addType]
  by_cases same : reference.fullName = name
  · rw [if_pos same]
    constructor
    · intro atEnd
      exact ⟨_, .inl ⟨(Option.some.inj atEnd).symm, rfl⟩, same⟩
    · rintro ⟨entry, ⟨rfl, rfl⟩ | found, named⟩
      · rfl
      · rw [indexed.typeNamed?_iff.mpr ⟨entry, found, named.trans same.symm⟩] at fresh
        cases fresh
  · rw [if_neg same, indexed.typeNamed?_iff]
    constructor
    · rintro ⟨entry, found, named⟩
      exact ⟨entry, .inr found, named⟩
    · rintro ⟨entry, ⟨rfl, rfl⟩ | found, named⟩
      · exact absurd named same
      · exact ⟨entry, found, named⟩

theorem TypesIndexed.addMember {catalog : Catalog} (indexed : catalog.TypesIndexed) (key : String)
    (make : MemberId → Member) : (catalog.addMember key make).2.TypesIndexed := by
  cases fresh : catalog.memberNamed? key with
  | some id => rw [addMember_of_known make fresh]; exact indexed
  | none =>
      refine ⟨fun {name id} => ?_⟩
      rw [typeNamed?_addMember, indexed.typeNamed?_iff]
      constructor
      · rintro ⟨entry, found, named⟩
        obtain ⟨later, there, extended⟩ := (extends_addMember key make).type? found
        exact ⟨later, there, extended.fullName.trans named⟩
      · rintro ⟨later, found, named⟩
        obtain ⟨entry, there, rfl⟩ := type?_addMember_before make fresh found
        exact ⟨entry, there, named⟩

/-- An update keeps the invariant if it stores no id that leads nowhere. -/
theorem WellFormed.of_updated {old new : Catalog} (formed : old.WellFormed)
    (updated : old.Updated new)
    (knowsType : ∀ {id entry}, new.type? id = some entry → new.KnowsType entry)
    (knowsMember : ∀ {id member}, new.member? id = some member → new.KnowsMember member) :
    new.WellFormed := by
  refine ⟨?_, ?_, ?_, ?_, ?_, ?_, knowsType, knowsMember, ?_⟩
  · intro id later found
    obtain ⟨entry, there, same⟩ := updated.type?_before found
    rw [same.id, formed.typeId there]
  · intro id later found
    obtain ⟨member, there, extended⟩ := updated.member?_before found
    rw [extended.id, formed.memberId there]
  · exact (formed.typesIndexed.of_updated updated).typeNamed?_iff
  · intro name id
    rw [updated.memberNamed?, formed.memberNamed?_iff]
    constructor
    · rintro ⟨member, found, named⟩
      obtain ⟨later, there, extended⟩ := updated.member? found
      exact ⟨later, there, extended.fullName.trans named⟩
    · rintro ⟨later, found, named⟩
      obtain ⟨member, there, extended⟩ := updated.member?_before found
      exact ⟨member, there, extended.fullName.symm.trans named⟩
  · intro on later found id
    obtain ⟨entry, there, same⟩ := updated.type?_before found
    rw [same.members, formed.mem_members_iff there]
    constructor
    · rintro ⟨member, memberFound, declared⟩
      obtain ⟨after, memberThere, extended⟩ := updated.member? memberFound
      exact ⟨after, memberThere, extended.declaringType.trans declared⟩
    · rintro ⟨after, memberFound, declared⟩
      obtain ⟨member, memberThere, extended⟩ := updated.member?_before memberFound
      exact ⟨member, memberThere, extended.declaringType.symm.trans declared⟩
  · intro on later found
    obtain ⟨entry, there, same⟩ := updated.type?_before found
    rw [same.members]
    exact formed.increasing there
  · intro id later found links isProperty accessor linked
    obtain ⟨member, there, extended⟩ := updated.member?_before found
    obtain ⟨before, wasProperty, sameGetter, sameSetter⟩ := extended.property?_before isProperty
    rw [sameGetter, sameSetter] at linked
    obtain ⟨method, methodFound, isMethod, declared⟩ :=
      formed.ownAccessors there before wasProperty accessor linked
    obtain ⟨after, methodThere, methodExtended⟩ := updated.member? methodFound
    exact ⟨after, methodThere, methodExtended.isMethod.trans isMethod,
      by rw [methodExtended.declaringType, extended.declaringType, declared]⟩

namespace WellFormed

variable {catalog : Catalog}

theorem updateType (formed : catalog.WellFormed) {id : TypeId} {change : TypeEntry → TypeEntry}
    (kept : ∀ entry, catalog.type? id = some entry →
      SameMembers entry (change entry) ∧ catalog.KnowsType (change entry)) :
    (catalog.updateType id change).WellFormed := by
  have updated := updated_updateType fun entry found => (kept entry found).1
  refine formed.of_updated updated ?_ ?_
  · intro other later found
    rw [type?_updateType] at found
    split at found
    · next same =>
        obtain ⟨entry, there, rfl⟩ := Option.map_eq_some_iff.mp found
        exact (kept entry (same ▸ there)).2.covered updated.covers
    · exact (formed.knowsType found).covered updated.covers
  · intro other member found
    exact (formed.knowsMember found).covered updated.covers

theorem updateMember (formed : catalog.WellFormed) {id : MemberId} {change : Member → Member}
    (kept : ∀ member, catalog.member? id = some member →
      member.Extends (change member) ∧ catalog.KnowsMember (change member)) :
    (catalog.updateMember id change).WellFormed := by
  have updated := updated_updateMember fun member found => (kept member found).1
  refine formed.of_updated updated ?_ ?_
  · intro other entry found
    exact (formed.knowsType found).covered updated.covers
  · intro other later found
    rw [member?_updateMember] at found
    split at found
    · next same =>
        obtain ⟨member, there, rfl⟩ := Option.map_eq_some_iff.mp found
        exact (kept member (same ▸ there)).2.covered updated.covers
    · exact (formed.knowsMember found).covered updated.covers

theorem addDependencies (formed : catalog.WellFormed) {id : MemberId}
    {dependencies : List Dependency} (known : ∀ dependency ∈ dependencies, catalog.Knows dependency) :
    (catalog.addDependencies id dependencies).WellFormed := by
  refine formed.updateMember fun member found => ⟨by constructor <;> simp, ?_⟩
  have before := formed.knowsMember found
  refine { before with dependencies := fun dependency there => ?_ }
  have either : dependency ∈ member.dependencies ∨ dependency ∈ dependencies := by
    rwa [← Array.mem_toList_iff, Array.toList_appendList, List.mem_append,
      Array.mem_toList_iff] at there
  rcases either with recorded | added
  · exact before.dependencies dependency recorded
  · exact known dependency added

theorem addBackwards (formed : catalog.WellFormed) {id : MemberId} {dependency : Dependency}
    (known : catalog.Knows dependency) : (catalog.addBackwards id dependency).WellFormed := by
  refine formed.updateMember fun member found => ⟨by constructor <;> simp, ?_⟩
  have before := formed.knowsMember found
  refine { before with backwards := fun other there => ?_ }
  rcases Array.mem_push.mp there with recorded | rfl
  · exact before.backwards other recorded
  · exact known

theorem addTypeDependency (formed : catalog.WellFormed) {dependency : TypeDependency}
    (known : catalog.KnowsBetween dependency) :
    (catalog.addTypeDependency dependency).WellFormed := by
  have target : (catalog.updateType dependency.target fun entry =>
      { entry with backwards := entry.backwards.push dependency }).WellFormed := by
    refine formed.updateType fun entry found => ⟨⟨rfl, rfl, rfl⟩, ?_⟩
    have before := formed.knowsType found
    refine { before with backwards := fun other there => ?_ }
    rcases Array.mem_push.mp there with recorded | rfl
    · exact before.backwards other recorded
    · exact known
  refine target.updateType fun entry found => ⟨⟨rfl, rfl, rfl⟩, ?_⟩
  have before := target.knowsType found
  refine { before with dependencies := fun other there => ?_ }
  rcases Array.mem_push.mp there with recorded | rfl
  · exact before.dependencies other recorded
  · exact known.covered ⟨by simp, by simp⟩

theorem withBackedProperty (formed : catalog.WellFormed) {id : MemberId} {backed : Option MemberId}
    (known : ∀ property ∈ backed, catalog.hasMember property) :
    (catalog.updateMember id (·.withBackedProperty backed)).WellFormed := by
  refine formed.updateMember fun member found => ⟨member.extends_withBackedProperty backed, ?_⟩
  have before := formed.knowsMember found
  unfold Member.withBackedProperty
  split
  · exact { before with role := known }
  · exact before

theorem withBackingField (formed : catalog.WellFormed) {id field : MemberId}
    (known : catalog.hasMember field) :
    (catalog.updateMember id (·.withBackingField field)).WellFormed := by
  refine formed.updateMember fun member found => ⟨member.extends_withBackingField field, ?_⟩
  have before := formed.knowsMember found
  unfold Member.withBackingField
  split
  · next links isProperty =>
      have role := before.role
      rw [isProperty] at role
      exact { before with role := ⟨role.1, role.2.1, by simpa using known⟩ }
  · exact before

theorem freePrevious (formed : catalog.WellFormed) (previous : Option MemberId)
    (field : MemberId) : (catalog.freePrevious previous field).WellFormed := by
  unfold Catalog.freePrevious
  split
  · split
    · exact formed
    · exact formed.withBackedProperty (by simp)
  · exact formed

theorem linkBacking (formed : catalog.WellFormed) (property field : MemberId) :
    (catalog.linkBacking property field).2.WellFormed := by
  rcases catalog.linkBacking_cases property field with ⟨links, allowed, linked⟩ | ⟨refused, _⟩
  · rw [linkBacking_of_allowed allowed linked]
    obtain ⟨fieldMember, fieldFound, _⟩ := mayBack_iff.mp allowed
    obtain ⟨propertyMember, propertyFound, _⟩ := linksOf?_eq_some_iff.mp linked
    have withField : (catalog.updateMember property (·.withBackingField field)).WellFormed :=
      formed.withBackingField (hasMember_of_member? fieldFound)
    have freed := withField.freePrevious links.backingField field
    refine freed.withBackedProperty ?_
    intro owner isOwner
    rw [Option.mem_some_iff] at isOwner
    subst isOwner
    exact (extends_freePrevious links.backingField field).hasMember
      (by simpa using hasMember_of_member? propertyFound)
  · rw [refused]
    exact formed

/-! ## New entries -/

theorem addType (formed : catalog.WellFormed) {reference : TypeReference} {kind : TypeKind}
    {visibility : Visibility} {isStub : Bool}
    (fresh : catalog.typeNamed? reference.fullName = none) :
    (catalog.addType reference kind visibility isStub).2.WellFormed := by
  have covers := (extends_addType kind visibility isStub fresh).covers
  refine ⟨?_, formed.memberId, ?_, formed.memberNamed?_iff, ?_, ?_, ?_, ?_, formed.ownAccessors⟩
  · intro id entry found
    rcases (type?_addType_iff ..).mp found with ⟨rfl, rfl⟩ | found
    · rfl
    · exact formed.typeId found
  · exact (formed.typesIndexed.addType fresh).typeNamed?_iff
  · intro on entry found id
    rcases (type?_addType_iff ..).mp found with ⟨rfl, rfl⟩ | found
    · -- No member can have been declared on the id that is handed out only now.
      refine iff_of_false (by simp [newType]) ?_
      rintro ⟨member, memberFound, declared⟩
      have inRange := hasType_iff_lt.mp (formed.knowsMember memberFound).declaringType
      simp [declared] at inRange
    · exact formed.mem_members_iff found
  · intro on entry found
    rcases (type?_addType_iff ..).mp found with ⟨rfl, rfl⟩ | found
    · simp [newType]
    · exact formed.increasing found
  · intro id entry found
    rcases (type?_addType_iff ..).mp found with ⟨rfl, rfl⟩ | found
    · constructor <;> simp [newType]
    · exact (formed.knowsType found).covered covers
  · intro id member found
    exact (formed.knowsMember found).covered covers

end WellFormed

/-- What a member has to be to be added under a key: it has the key as full name and the id that is
next, all ids that it stores lead to entries once it is there, and its accessors are methods of its
own type. -/
structure Insertable (catalog : Catalog) (key : String) (make : MemberId → Member) : Prop where
  id : (make ⟨catalog.members.size⟩).id = ⟨catalog.members.size⟩
  fullName : (make ⟨catalog.members.size⟩).fullName = key
  known : (catalog.addMember key make).2.KnowsMember (make ⟨catalog.members.size⟩)
  ownAccessors : catalog.OwnAccessors (make ⟨catalog.members.size⟩)

theorem OwnAccessors.extended {old new : Catalog} (extended : old.Extends new) {member : Member}
    (own : old.OwnAccessors member) : new.OwnAccessors member := by
  intro links isProperty accessor linked
  obtain ⟨method, found, isMethod, declared⟩ := own links isProperty accessor linked
  obtain ⟨later, there, methodExtended⟩ := extended.member? found
  exact ⟨later, there, methodExtended.isMethod.trans isMethod,
    methodExtended.declaringType.trans declared⟩

namespace WellFormed

variable {catalog : Catalog}

/-- The new id is the greatest so far, so it can stand at the end of its type's list. -/
private theorem increasing_push (formed : catalog.WellFormed) {on : TypeId} {entry : TypeEntry}
    (found : catalog.type? on = some entry) :
    (entry.members.push ⟨catalog.members.size⟩).toList.Pairwise (·.index < ·.index) := by
  rw [Array.toList_push, List.pairwise_append]
  refine ⟨formed.increasing found, by simp, ?_⟩
  intro id there new atEnd
  rw [List.mem_singleton] at atEnd
  obtain ⟨member, memberFound, _⟩ :=
    (formed.mem_members_iff found).mp (Array.mem_toList_iff.mp there)
  rw [atEnd]
  exact hasMember_iff_lt.mp (hasMember_of_member? memberFound)

private theorem memberNamed?_iff_addMember (formed : catalog.WellFormed) {key : String}
    {make : MemberId → Member} (fresh : catalog.memberNamed? key = none)
    (fits : catalog.Insertable key make) {name : String} {id : MemberId} :
    (catalog.addMember key make).2.memberNamed? name = some id ↔
      ∃ member, (catalog.addMember key make).2.member? id = some member ∧
        member.fullName = name := by
  simp only [member?_addMember_iff make fresh, memberNamed?_addMember make fresh]
  by_cases same : key = name
  · rw [if_pos same]
    constructor
    · intro atEnd
      exact ⟨_, .inl ⟨(Option.some.inj atEnd).symm, rfl⟩, fits.fullName.trans same⟩
    · rintro ⟨member, ⟨rfl, rfl⟩ | found, named⟩
      · rfl
      · rw [formed.memberNamed?_iff.mpr ⟨member, found, named.trans same.symm⟩] at fresh
        cases fresh
  · rw [if_neg same, formed.memberNamed?_iff]
    constructor
    · rintro ⟨member, found, named⟩
      exact ⟨member, .inr found, named⟩
    · rintro ⟨member, ⟨rfl, rfl⟩ | found, named⟩
      · exact absurd (fits.fullName.symm.trans named) same
      · exact ⟨member, found, named⟩

private theorem mem_members_iff_addMember (formed : catalog.WellFormed) {key : String}
    {make : MemberId → Member} (fresh : catalog.memberNamed? key = none) {on : TypeId}
    {later : TypeEntry} (found : (catalog.addMember key make).2.type? on = some later)
    {id : MemberId} :
    id ∈ later.members ↔ ∃ member, (catalog.addMember key make).2.member? id = some member ∧
      member.declaringType = on := by
  obtain ⟨entry, there, rfl⟩ := type?_addMember_before make fresh found
  simp only [member?_addMember_iff make fresh]
  by_cases declared : (make ⟨catalog.members.size⟩).declaringType = on
  · rw [if_pos declared, Array.mem_push, formed.mem_members_iff there]
    constructor
    · rintro (⟨member, memberFound, sameType⟩ | rfl)
      · exact ⟨member, .inr memberFound, sameType⟩
      · exact ⟨_, .inl ⟨rfl, rfl⟩, declared⟩
    · rintro ⟨member, ⟨rfl, rfl⟩ | memberFound, sameType⟩
      · exact .inr rfl
      · exact .inl ⟨member, memberFound, sameType⟩
  · rw [if_neg declared, formed.mem_members_iff there]
    constructor
    · rintro ⟨member, memberFound, sameType⟩
      exact ⟨member, .inr memberFound, sameType⟩
    · rintro ⟨member, ⟨rfl, rfl⟩ | memberFound, sameType⟩
      · exact absurd sameType declared
      · exact ⟨member, memberFound, sameType⟩

theorem addMember (formed : catalog.WellFormed) {key : String} {make : MemberId → Member}
    (insertable : catalog.memberNamed? key = none → catalog.Insertable key make) :
    (catalog.addMember key make).2.WellFormed := by
  cases fresh : catalog.memberNamed? key with
  | some id =>
      rw [addMember_of_known make fresh]
      exact formed
  | none =>
      have fits := insertable fresh
      have extended : catalog.Extends (catalog.addMember key make).2 := extends_addMember key make
      refine ⟨?_, ?_, ?_, formed.memberNamed?_iff_addMember fresh fits,
        fun found => formed.mem_members_iff_addMember fresh found, ?_, ?_, ?_, ?_⟩
      · intro on later found
        obtain ⟨entry, there, rfl⟩ := type?_addMember_before make fresh found
        exact (formed.typeId there : entry.id = on)
      · intro id member found
        rcases (member?_addMember_iff make fresh).mp found with ⟨rfl, rfl⟩ | found
        · exact fits.id
        · exact formed.memberId found
      · exact (formed.typesIndexed.addMember key make).typeNamed?_iff
      · intro on later found
        obtain ⟨entry, there, rfl⟩ := type?_addMember_before make fresh found
        dsimp only
        split
        · exact formed.increasing_push there
        · exact formed.increasing there
      · intro on later found
        obtain ⟨entry, there, rfl⟩ := type?_addMember_before make fresh found
        have known := (formed.knowsType there).covered extended.covers
        exact ⟨known.dependencies, known.backwards⟩
      · intro id member found
        rcases (member?_addMember_iff make fresh).mp found with ⟨rfl, rfl⟩ | found
        · exact fits.known
        · exact (formed.knowsMember found).covered extended.covers
      · intro id member found
        rcases (member?_addMember_iff make fresh).mp found with ⟨rfl, rfl⟩ | found
        · exact fits.ownAccessors.extended extended
        · exact (formed.ownAccessors found).extended extended

/-! ## Defining types -/

theorem defineType (formed : catalog.WellFormed) (reference : TypeReference) (kind : TypeKind)
    (visibility : Visibility) : (catalog.defineType reference kind visibility).2.WellFormed := by
  unfold Catalog.defineType
  split
  · next id named =>
      refine formed.updateType fun entry found => ?_
      have known := formed.knowsType found
      unfold promote
      split
      · exact ⟨⟨rfl, rfl, rfl⟩, ⟨known.dependencies, known.backwards⟩⟩
      · exact ⟨⟨rfl, rfl, rfl⟩, known⟩
  · next fresh => exact formed.addType fresh

end WellFormed

end MemberGraph.Catalog
