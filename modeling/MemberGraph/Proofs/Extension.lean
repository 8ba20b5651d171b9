import MemberGraph.Proofs.Lookup
import Mathlib.Data.List.Infix

/-!
Catalogs only grow. An entry keeps its id, its names and what it is; its lists are extended at the
end. Only the backing links between fields and properties may be rewritten.
-/

set_option autoImplicit false

namespace MemberGraph

/-- A role without its backing link, which is the part of it that may change. -/
def MemberRole.withoutBacking : MemberRole → MemberRole
  | .method traits => .method traits
  | .field _ => .field none
  | .property links => .property { links with backingField := none }

def MemberRole.isMethod : MemberRole → Bool
  | .method _ => true
  | _ => false

def MemberRole.isField : MemberRole → Bool
  | .field _ => true
  | _ => false

def MemberRole.isProperty : MemberRole → Bool
  | .property _ => true
  | _ => false

def MemberRole.accessors? : MemberRole → Option (Option MemberId × Option MemberId)
  | .property links => some (links.getter, links.setter)
  | _ => none

theorem Member.isMethod_of_isField {member : Member} (isField : member.isField) :
    member.isMethod = false := by
  unfold Member.isField at isField
  unfold Member.isMethod Member.method?
  cases role : member.role <;> simp_all

theorem Member.isField_of_backedProperty? {member : Member} {property : MemberId}
    (backs : member.backedProperty? = some property) : member.isField := by
  unfold Member.backedProperty? at backs
  unfold Member.isField
  cases role : member.role <;> simp_all

theorem Member.isProperty_of_isField {member : Member} (isField : member.isField) :
    member.isProperty = false := by
  unfold Member.isField at isField
  unfold Member.isProperty Member.property?
  cases role : member.role <;> simp_all

theorem Member.isProperty_of_isMethod {member : Member} (isMethod : member.isMethod) :
    member.isProperty = false := by
  unfold Member.isMethod Member.method? at isMethod
  unfold Member.isProperty Member.property?
  cases role : member.role <;> simp_all

structure Member.Extends (old new : Member) : Prop where
  id : new.id = old.id
  declaringType : new.declaringType = old.declaringType
  name : new.name = old.name
  fullName : new.fullName = old.fullName
  memberType : new.memberType = old.memberType
  visibility : new.visibility = old.visibility
  isStub : new.isStub = old.isStub
  role : new.role.withoutBacking = old.role.withoutBacking
  dependencies : old.dependencies.toList <+: new.dependencies.toList
  backwards : old.backwards.toList <+: new.backwards.toList

structure TypeEntry.Extends (old new : TypeEntry) : Prop where
  id : new.id = old.id
  fullName : new.fullName = old.fullName
  name : new.name = old.name
  namespaceName : new.namespaceName = old.namespaceName
  assembly : new.assembly = old.assembly
  kind : new.kind = old.kind
  visibility : new.visibility = old.visibility
  isStub : new.isStub = old.isStub
  members : old.members.toList <+: new.members.toList
  dependencies : old.dependencies.toList <+: new.dependencies.toList
  backwards : old.backwards.toList <+: new.backwards.toList

namespace Member.Extends

theorem refl (member : Member) : member.Extends member :=
  ⟨rfl, rfl, rfl, rfl, rfl, rfl, rfl, rfl, List.prefix_rfl, List.prefix_rfl⟩

theorem trans {first second third : Member} (before : first.Extends second)
    (after : second.Extends third) : first.Extends third where
  id := after.id.trans before.id
  declaringType := after.declaringType.trans before.declaringType
  name := after.name.trans before.name
  fullName := after.fullName.trans before.fullName
  memberType := after.memberType.trans before.memberType
  visibility := after.visibility.trans before.visibility
  isStub := after.isStub.trans before.isStub
  role := after.role.trans before.role
  dependencies := before.dependencies.trans after.dependencies
  backwards := before.backwards.trans after.backwards

variable {old new : Member}

theorem isMethod (extended : old.Extends new) : new.isMethod = old.isMethod := by
  have kind : ∀ member : Member, member.isMethod = member.role.withoutBacking.isMethod := by
    intro member
    unfold Member.isMethod Member.method?
    cases member.role <;> rfl
  rw [kind, kind, extended.role]

theorem isProperty (extended : old.Extends new) : new.isProperty = old.isProperty := by
  have kind : ∀ member : Member, member.isProperty = member.role.withoutBacking.isProperty := by
    intro member
    unfold Member.isProperty Member.property?
    cases member.role <;> rfl
  rw [kind, kind, extended.role]

theorem isField (extended : old.Extends new) : new.isField = old.isField := by
  have kind : ∀ member : Member, member.isField = member.role.withoutBacking.isField := by
    intro member
    unfold Member.isField
    cases member.role <;> rfl
  rw [kind, kind, extended.role]

theorem role_of_method (extended : old.Extends new) {traits : MethodTraits}
    (isMethod : old.role = .method traits) : new.role = .method traits := by
  have same := extended.role
  rw [isMethod] at same
  cases role : new.role <;> simp_all [MemberRole.withoutBacking]

theorem accessors (extended : old.Extends new) :
    (new.property?.map fun links => (links.getter, links.setter)) =
      old.property?.map fun links => (links.getter, links.setter) := by
  have kept : ∀ member : Member, (member.property?.map fun links => (links.getter, links.setter)) =
      member.role.withoutBacking.accessors? := by
    intro member
    unfold Member.property?
    cases member.role <;> rfl
  rw [kept, kept, extended.role]

theorem property? (extended : old.Extends new) {links : PropertyLinks}
    (found : old.property? = some links) :
    ∃ later, new.property? = some later ∧ later.getter = links.getter ∧
      later.setter = links.setter := by
  have same := extended.accessors
  rw [found, Option.map_some] at same
  obtain ⟨later, there, equal⟩ := Option.map_eq_some_iff.mp same
  simp only [Prod.mk.injEq] at equal
  exact ⟨later, there, equal.1, equal.2⟩

theorem property?_before (extended : old.Extends new) {later : PropertyLinks}
    (found : new.property? = some later) :
    ∃ links, old.property? = some links ∧ later.getter = links.getter ∧
      later.setter = links.setter := by
  have same := extended.accessors
  rw [found, Option.map_some] at same
  obtain ⟨links, there, equal⟩ := Option.map_eq_some_iff.mp same.symm
  simp only [Prod.mk.injEq] at equal
  exact ⟨links, there, equal.1.symm, equal.2.symm⟩

end Member.Extends

namespace TypeEntry.Extends

theorem refl (entry : TypeEntry) : entry.Extends entry :=
  ⟨rfl, rfl, rfl, rfl, rfl, rfl, rfl, rfl, List.prefix_rfl, List.prefix_rfl, List.prefix_rfl⟩

theorem trans {first second third : TypeEntry} (before : first.Extends second)
    (after : second.Extends third) : first.Extends third where
  id := after.id.trans before.id
  fullName := after.fullName.trans before.fullName
  name := after.name.trans before.name
  namespaceName := after.namespaceName.trans before.namespaceName
  assembly := after.assembly.trans before.assembly
  kind := after.kind.trans before.kind
  visibility := after.visibility.trans before.visibility
  isStub := after.isStub.trans before.isStub
  members := before.members.trans after.members
  dependencies := before.dependencies.trans after.dependencies
  backwards := before.backwards.trans after.backwards

end TypeEntry.Extends

/-- A later state of a catalog: every entry is still there, at its id and under its name. -/
structure Catalog.Extends (old new : Catalog) : Prop where
  type? : ∀ {id entry}, old.type? id = some entry →
    ∃ later, new.type? id = some later ∧ entry.Extends later
  member? : ∀ {id member}, old.member? id = some member →
    ∃ later, new.member? id = some later ∧ member.Extends later
  typeNamed? : ∀ {name id}, old.typeNamed? name = some id → new.typeNamed? name = some id
  memberNamed? : ∀ {name id}, old.memberNamed? name = some id → new.memberNamed? name = some id

namespace Catalog.Extends

theorem refl (catalog : Catalog) : catalog.Extends catalog where
  type? found := ⟨_, found, .refl _⟩
  member? found := ⟨_, found, .refl _⟩
  typeNamed? found := found
  memberNamed? found := found

theorem trans {first second third : Catalog} (before : first.Extends second)
    (after : second.Extends third) : first.Extends third where
  type? found := by
    obtain ⟨middle, there, extended⟩ := before.type? found
    obtain ⟨last, found, extendedAgain⟩ := after.type? there
    exact ⟨last, found, extended.trans extendedAgain⟩
  member? found := by
    obtain ⟨middle, there, extended⟩ := before.member? found
    obtain ⟨last, found, extendedAgain⟩ := after.member? there
    exact ⟨last, found, extended.trans extendedAgain⟩
  typeNamed? found := after.typeNamed? (before.typeNamed? found)
  memberNamed? found := after.memberNamed? (before.memberNamed? found)

variable {old new : Catalog}

theorem hasType (extended : old.Extends new) {id : TypeId} (known : old.hasType id) :
    new.hasType id := by
  obtain ⟨entry, found⟩ := hasType_iff.mp known
  obtain ⟨later, there, _⟩ := extended.type? found
  exact hasType_of_type? there

theorem hasMember (extended : old.Extends new) {id : MemberId} (known : old.hasMember id) :
    new.hasMember id := by
  obtain ⟨member, found⟩ := hasMember_iff.mp known
  obtain ⟨later, there, _⟩ := extended.member? found
  exact hasMember_of_member? there

end Catalog.Extends

/-! ## Elementary changes extend a catalog -/

namespace Catalog

variable {catalog : Catalog}

private theorem extends_updateType {id : TypeId} {change : TypeEntry → TypeEntry}
    (kept : ∀ entry, catalog.type? id = some entry → entry.Extends (change entry)) :
    catalog.Extends (catalog.updateType id change) where
  type? {other entry} found := by
    by_cases same : id = other
    · subst same
      exact ⟨change entry, by simp [type?_updateType, found], kept entry found⟩
    · exact ⟨entry, by simp [type?_updateType, same, found], .refl _⟩
  member? found := ⟨_, found, .refl _⟩
  typeNamed? found := found
  memberNamed? found := found

theorem extends_updateMember {id : MemberId} {change : Member → Member}
    (kept : ∀ member, catalog.member? id = some member → member.Extends (change member)) :
    catalog.Extends (catalog.updateMember id change) where
  type? found := ⟨_, found, .refl _⟩
  member? {other member} found := by
    by_cases same : id = other
    · subst same
      exact ⟨change member, by simp [member?_updateMember, found], kept member found⟩
    · exact ⟨member, by simp [member?_updateMember, same, found], .refl _⟩
  typeNamed? found := found
  memberNamed? found := found

theorem extends_addType {reference : TypeReference} (kind : TypeKind) (visibility : Visibility)
    (isStub : Bool) (fresh : catalog.typeNamed? reference.fullName = none) :
    catalog.Extends (catalog.addType reference kind visibility isStub).2 where
  type? {id entry} found := by
    have inRange := hasType_iff_lt.mp (hasType_of_type? found)
    exact ⟨entry, by rw [type?_addType, if_neg inRange.ne, found], .refl _⟩
  member? found := ⟨_, found, .refl _⟩
  typeNamed? {name id} found := by
    have other : reference.fullName ≠ name := by
      intro same
      rw [same, found] at fresh
      cases fresh
    rw [typeNamed?_addType, if_neg other, found]
  memberNamed? found := found

theorem extends_addMember (key : String) (make : MemberId → Member) :
    catalog.Extends (catalog.addMember key make).2 := by
  cases known : catalog.memberNamed? key with
  | some id => rw [addMember_of_known make known]; exact .refl _
  | none =>
      constructor
      · intro on entry found
        by_cases same : (make ⟨catalog.members.size⟩).declaringType = on
        · refine ⟨_, by rw [type?_addMember make known, if_pos same, found]; rfl, ?_⟩
          constructor <;> simp
        · exact ⟨entry, by rw [type?_addMember make known, if_neg same, found], .refl _⟩
      · intro id member found
        have inRange := hasMember_iff_lt.mp (hasMember_of_member? found)
        exact ⟨member, by rw [member?_addMember make known, if_neg inRange.ne, found], .refl _⟩
      · intro name id found
        rw [typeNamed?_addMember, found]
      · intro name id found
        have other : key ≠ name := by
          intro same
          rw [same, found] at known
          cases known
        rw [memberNamed?_addMember make known, if_neg other, found]

theorem extends_addDependencies (id : MemberId) (dependencies : List Dependency) :
    catalog.Extends (catalog.addDependencies id dependencies) :=
  extends_updateMember fun member _ => by constructor <;> simp

theorem extends_addBackwards (id : MemberId) (dependency : Dependency) :
    catalog.Extends (catalog.addBackwards id dependency) :=
  extends_updateMember fun member _ => by constructor <;> simp

theorem extends_addTypeDependency (dependency : TypeDependency) :
    catalog.Extends (catalog.addTypeDependency dependency) := by
  have target : catalog.Extends (catalog.updateType dependency.target fun entry =>
      { entry with backwards := entry.backwards.push dependency }) :=
    extends_updateType fun entry _ => by constructor <;> simp
  exact target.trans (extends_updateType fun entry _ => by constructor <;> simp)

end Catalog

def Member.Relinked (member later : Member) : Prop :=
  later = { member with role := later.role } ∧
    later.role.withoutBacking = member.role.withoutBacking

theorem Member.relinked_withBackedProperty (member : Member) (backed : Option MemberId) :
    member.Relinked (member.withBackedProperty backed) := by
  unfold Member.withBackedProperty
  split
  · next found => exact ⟨rfl, by rw [found]; rfl⟩
  · exact ⟨rfl, rfl⟩

private theorem Member.relinked_withBackingField (member : Member) (field : MemberId) :
    member.Relinked (member.withBackingField field) := by
  unfold Member.withBackingField
  split
  · next found => exact ⟨rfl, by rw [found]; rfl⟩
  · exact ⟨rfl, rfl⟩

theorem Member.Relinked.dependencies {member later : Member} (relinked : member.Relinked later) :
    later.dependencies = member.dependencies := by
  have same := congrArg Member.dependencies relinked.1
  exact same

theorem Member.Relinked.backwards {member later : Member} (relinked : member.Relinked later) :
    later.backwards = member.backwards := by
  have same := congrArg Member.backwards relinked.1
  exact same

theorem Member.Relinked.extends {member later : Member} (relinked : member.Relinked later) :
    member.Extends later := by
  obtain ⟨same, role⟩ := relinked
  rw [same]
  constructor <;> simp [role]

theorem Member.extends_withBackedProperty (member : Member) (backed : Option MemberId) :
    member.Extends (member.withBackedProperty backed) :=
  (member.relinked_withBackedProperty backed).extends

theorem Member.extends_withBackingField (member : Member) (field : MemberId) :
    member.Extends (member.withBackingField field) :=
  (member.relinked_withBackingField field).extends

namespace Catalog

variable {catalog : Catalog}

theorem extends_freePrevious (previous : Option MemberId) (field : MemberId) :
    catalog.Extends (catalog.freePrevious previous field) := by
  unfold freePrevious
  split
  · split
    · exact .refl _
    · exact extends_updateMember fun member _ => member.extends_withBackedProperty none
  · exact .refl _

/-- A backing link gives members other links, one after the other, and keeps whatever that keeps. -/
theorem linkBacking_induction {motive : Catalog → Prop}
    (relink : ∀ {catalog : Catalog} (id : MemberId) (change : Member → Member),
      (∀ member : Member, member.Relinked (change member)) → motive catalog →
      motive (catalog.updateMember id change))
    (start : motive catalog) (property field : MemberId) :
    motive (catalog.linkBacking property field).2 := by
  have backing := relink property _ (fun member => member.relinked_withBackingField field) start
  rcases catalog.linkBacking_cases property field with ⟨links, allowed, linked⟩ | ⟨refused, _⟩
  · rw [linkBacking_of_allowed allowed linked]
    refine relink field _ (fun member => member.relinked_withBackedProperty _) ?_
    unfold freePrevious
    split
    · split
      · exact backing
      · exact relink _ _ (fun member => member.relinked_withBackedProperty _) backing
    · exact backing
  · rw [refused]
    exact start

theorem extends_linkBacking (property field : MemberId) :
    catalog.Extends (catalog.linkBacking property field).2 :=
  linkBacking_induction
    (fun _ _ relinked before =>
      before.trans (extends_updateMember fun member _ => (relinked member).extends))
    (.refl _) property field

end Catalog

end MemberGraph
