import MemberGraph.Catalog.BackingLink
import MemberGraph.Catalog.Selection

/-!
What the look-ups of a catalog give after each of its elementary changes. An update at an id is seen
at that id only; a new entry is seen at the next id, and its name in the index.
-/

set_option autoImplicit false

namespace MemberGraph.Catalog

variable {catalog : Catalog}

/-! ## Ids in range -/

theorem hasType_iff_lt {id : TypeId} : catalog.hasType id ↔ id.index < catalog.types.size := by
  simp [hasType]

theorem hasMember_iff_lt {id : MemberId} :
    catalog.hasMember id ↔ id.index < catalog.members.size := by
  simp [hasMember]

theorem hasType_iff {id : TypeId} : catalog.hasType id ↔ ∃ entry, catalog.type? id = some entry := by
  rw [hasType_iff_lt, type?, ← Option.isSome_iff_exists]
  simp

theorem hasMember_iff {id : MemberId} :
    catalog.hasMember id ↔ ∃ member, catalog.member? id = some member := by
  rw [hasMember_iff_lt, member?, ← Option.isSome_iff_exists]
  simp

theorem hasType_of_type? {id : TypeId} {entry : TypeEntry} (found : catalog.type? id = some entry) :
    catalog.hasType id :=
  hasType_iff.mpr ⟨entry, found⟩

theorem hasMember_of_member? {id : MemberId} {member : Member}
    (found : catalog.member? id = some member) : catalog.hasMember id :=
  hasMember_iff.mpr ⟨member, found⟩

theorem isStubType_iff {id : TypeId} :
    catalog.isStubType id ↔ ∃ entry, catalog.type? id = some entry ∧ entry.isStub := by
  unfold isStubType
  cases catalog.type? id <;> simp

theorem methodNamed?_eq_some_iff {on : TypeId} {name : String} {id : MemberId} :
    catalog.methodNamed? on name = some id ↔
      catalog.memberNamed? name = some id ∧
        ∃ member, catalog.member? id = some member ∧ member.isMethod ∧ member.declaringType = on := by
  unfold methodNamed?
  cases named : catalog.memberNamed? name with
  | none => simp
  | some other =>
      cases found : catalog.member? other with
      | none =>
          simp only [Option.bind_eq_bind, Option.bind_some, found, Option.bind_none, reduceCtorEq,
            Option.some.injEq, false_iff, not_and]
          rintro rfl ⟨member, there, _⟩
          rw [found] at there
          cases there
      | some member =>
          simp only [Option.bind_eq_bind, Option.bind_some, found, Option.ite_none_right_eq_some,
            Option.some.injEq]
          constructor
          · rintro ⟨declared, rfl⟩
            exact ⟨rfl, member, found, declared⟩
          · rintro ⟨rfl, later, there, declared⟩
            rw [found] at there
            cases there
            exact ⟨declared, rfl⟩

/-! ## Updates -/

theorem type?_updateType (id other : TypeId) (change : TypeEntry → TypeEntry) :
    (catalog.updateType id change).type? other =
      if id = other then (catalog.type? other).map change else catalog.type? other := by
  obtain ⟨index⟩ := id
  obtain ⟨position⟩ := other
  simp [type?, updateType, Array.getElem?_modify]

theorem member?_updateMember (id other : MemberId) (change : Member → Member) :
    (catalog.updateMember id change).member? other =
      if id = other then (catalog.member? other).map change else catalog.member? other := by
  obtain ⟨index⟩ := id
  obtain ⟨position⟩ := other
  simp [member?, updateMember, Array.getElem?_modify]

@[simp] theorem member?_updateType (id : TypeId) (change : TypeEntry → TypeEntry) (other : MemberId) :
    (catalog.updateType id change).member? other = catalog.member? other := rfl

@[simp] theorem type?_updateMember (id : MemberId) (change : Member → Member) (other : TypeId) :
    (catalog.updateMember id change).type? other = catalog.type? other := rfl

@[simp] theorem typeNamed?_updateType (id : TypeId) (change : TypeEntry → TypeEntry) (name : String) :
    (catalog.updateType id change).typeNamed? name = catalog.typeNamed? name := rfl

@[simp] theorem typeNamed?_updateMember (id : MemberId) (change : Member → Member) (name : String) :
    (catalog.updateMember id change).typeNamed? name = catalog.typeNamed? name := rfl

@[simp] theorem memberNamed?_updateType (id : TypeId) (change : TypeEntry → TypeEntry)
    (name : String) : (catalog.updateType id change).memberNamed? name = catalog.memberNamed? name := rfl

@[simp] theorem memberNamed?_updateMember (id : MemberId) (change : Member → Member)
    (name : String) :
    (catalog.updateMember id change).memberNamed? name = catalog.memberNamed? name := rfl

@[simp] theorem hasType_updateType (id other : TypeId) (change : TypeEntry → TypeEntry) :
    (catalog.updateType id change).hasType other = catalog.hasType other := by
  simp [hasType, updateType]

@[simp] theorem hasMember_updateType (id : TypeId) (change : TypeEntry → TypeEntry)
    (other : MemberId) : (catalog.updateType id change).hasMember other = catalog.hasMember other := rfl

@[simp] theorem hasType_updateMember (id : MemberId) (change : Member → Member) (other : TypeId) :
    (catalog.updateMember id change).hasType other = catalog.hasType other := rfl

@[simp] theorem hasMember_updateMember (id other : MemberId) (change : Member → Member) :
    (catalog.updateMember id change).hasMember other = catalog.hasMember other := by
  simp [hasMember, updateMember]

/-! ## New types -/

def newType (catalog : Catalog) (reference : TypeReference) (kind : TypeKind)
    (visibility : Visibility) (isStub : Bool) : TypeEntry where
  id := ⟨catalog.types.size⟩
  fullName := reference.fullName
  name := reference.name
  namespaceName := reference.namespaceName
  assembly := reference.assembly
  kind
  visibility
  isStub

section AddType

variable (reference : TypeReference) (kind : TypeKind) (visibility : Visibility) (isStub : Bool)

@[simp] theorem addType_fst :
    (catalog.addType reference kind visibility isStub).1 = ⟨catalog.types.size⟩ := rfl

theorem type?_addType (id : TypeId) :
    (catalog.addType reference kind visibility isStub).2.type? id =
      if id.index = catalog.types.size then some (catalog.newType reference kind visibility isStub)
      else catalog.type? id := by
  simp only [addType, type?, Array.getElem?_push]
  rfl

theorem type?_addType_iff {id : TypeId} {entry : TypeEntry} :
    (catalog.addType reference kind visibility isStub).2.type? id = some entry ↔
      (id = ⟨catalog.types.size⟩ ∧ entry = catalog.newType reference kind visibility isStub) ∨
        catalog.type? id = some entry := by
  obtain ⟨index⟩ := id
  rw [type?_addType]
  by_cases atEnd : index = catalog.types.size
  · subst atEnd
    simp [type?, eq_comm]
  · simp [atEnd]

@[simp] theorem member?_addType (id : MemberId) :
    (catalog.addType reference kind visibility isStub).2.member? id = catalog.member? id := rfl

theorem typeNamed?_addType (name : String) :
    (catalog.addType reference kind visibility isStub).2.typeNamed? name =
      if reference.fullName = name then some ⟨catalog.types.size⟩ else catalog.typeNamed? name := by
  simp [addType, typeNamed?, Std.TreeMap.getElem?_insert]

@[simp] theorem memberNamed?_addType (name : String) :
    (catalog.addType reference kind visibility isStub).2.memberNamed? name =
      catalog.memberNamed? name := rfl

theorem hasType_addType (id : TypeId) :
    (catalog.addType reference kind visibility isStub).2.hasType id ↔
      catalog.hasType id ∨ id.index = catalog.types.size := by
  simp only [hasType_iff_lt, addType, Array.size_push]
  omega

@[simp] theorem hasMember_addType (id : MemberId) :
    (catalog.addType reference kind visibility isStub).2.hasMember id = catalog.hasMember id := rfl

end AddType

/-! ## New members -/

section AddMember

variable {key : String} (make : MemberId → Member)

theorem addMember_of_known {id : MemberId} (known : catalog.memberNamed? key = some id) :
    catalog.addMember key make = (id, catalog) := by
  simp [addMember, known]

theorem addMember_fst (fresh : catalog.memberNamed? key = none) :
    (catalog.addMember key make).1 = ⟨catalog.members.size⟩ := by
  simp [addMember, fresh]

theorem member?_addMember (fresh : catalog.memberNamed? key = none) (id : MemberId) :
    (catalog.addMember key make).2.member? id =
      if id.index = catalog.members.size then some (make ⟨catalog.members.size⟩)
      else catalog.member? id := by
  simp only [addMember, fresh, member?, updateType, Array.getElem?_push]

theorem member?_addMember_iff (fresh : catalog.memberNamed? key = none) {id : MemberId}
    {member : Member} :
    (catalog.addMember key make).2.member? id = some member ↔
      (id = ⟨catalog.members.size⟩ ∧ member = make ⟨catalog.members.size⟩) ∨
        catalog.member? id = some member := by
  obtain ⟨index⟩ := id
  rw [member?_addMember make fresh]
  by_cases atEnd : index = catalog.members.size
  · subst atEnd
    simp [member?, eq_comm]
  · simp [atEnd]

theorem type?_addMember (fresh : catalog.memberNamed? key = none) (on : TypeId) :
    (catalog.addMember key make).2.type? on =
      if (make ⟨catalog.members.size⟩).declaringType = on then
        (catalog.type? on).map fun entry =>
          { entry with members := entry.members.push ⟨catalog.members.size⟩ }
      else catalog.type? on := by
  simp only [addMember, fresh]
  exact type?_updateType _ _ _

theorem type?_addMember_before (fresh : catalog.memberNamed? key = none) {on : TypeId}
    {later : TypeEntry} (found : (catalog.addMember key make).2.type? on = some later) :
    ∃ entry, catalog.type? on = some entry ∧ later =
      { entry with
        members :=
          if (make ⟨catalog.members.size⟩).declaringType = on then
            entry.members.push ⟨catalog.members.size⟩
          else entry.members } := by
  rw [type?_addMember make fresh] at found
  split at found
  · next declared =>
      obtain ⟨entry, there, rfl⟩ := Option.map_eq_some_iff.mp found
      exact ⟨entry, there, by rw [if_pos declared]⟩
  · next elsewhere => exact ⟨later, found, by rw [if_neg elsewhere]⟩

theorem memberNamed?_addMember (fresh : catalog.memberNamed? key = none) (name : String) :
    (catalog.addMember key make).2.memberNamed? name =
      if key = name then some ⟨catalog.members.size⟩ else catalog.memberNamed? name := by
  simp only [addMember, fresh]
  simp [memberNamed?, updateType, Std.TreeMap.getElem?_insert]

theorem addMember_named :
    (catalog.addMember key make).2.memberNamed? key = some (catalog.addMember key make).1 := by
  cases known : catalog.memberNamed? key with
  | none => rw [memberNamed?_addMember make known, addMember_fst make known, if_pos rfl]
  | some id => rw [addMember_of_known make known, known]

theorem typeNamed?_addMember (name : String) :
    (catalog.addMember key make).2.typeNamed? name = catalog.typeNamed? name := by
  cases known : catalog.memberNamed? key with
  | none => simp only [addMember, known]; rfl
  | some id => rw [addMember_of_known make known]

theorem hasMember_addMember (fresh : catalog.memberNamed? key = none) (id : MemberId) :
    (catalog.addMember key make).2.hasMember id ↔
      catalog.hasMember id ∨ id.index = catalog.members.size := by
  simp only [hasMember_iff_lt, addMember, fresh, updateType, Array.size_push]
  omega

@[simp] theorem hasType_addMember (on : TypeId) :
    (catalog.addMember key make).2.hasType on = catalog.hasType on := by
  cases known : catalog.memberNamed? key with
  | none => simp [addMember, known, hasType, updateType]
  | some id => rw [addMember_of_known make known]

end AddMember

/-! ## Backing links -/

def backingField? (catalog : Catalog) (property : MemberId) : Option MemberId :=
  (catalog.linksOf? property).bind (·.backingField)

def backedProperty? (catalog : Catalog) (field : MemberId) : Option MemberId :=
  (catalog.member? field).bind (·.backedProperty?)

theorem linksOf?_eq_some_iff {property : MemberId} {links : PropertyLinks} :
    catalog.linksOf? property = some links ↔
      ∃ member, catalog.member? property = some member ∧ member.property? = some links :=
  Option.bind_eq_some_iff

theorem mayBack_iff {field property : MemberId} :
    catalog.mayBack field property ↔
      ∃ member, catalog.member? field = some member ∧ member.isField ∧
        ∀ owner, member.backedProperty? = some owner → owner = property := by
  unfold mayBack
  cases found : catalog.member? field with
  | none => simp
  | some member => simp [Option.all_eq_true]

theorem linkBacking_of_allowed {property field : MemberId} {links : PropertyLinks}
    (allowed : catalog.mayBack field property) (linked : catalog.linksOf? property = some links) :
    catalog.linkBacking property field =
      (true, ((catalog.updateMember property (·.withBackingField field)).freePrevious
        links.backingField field).updateMember field (·.withBackedProperty (some property))) := by
  simp [linkBacking, allowed, linked]

/-- A link is made exactly if the field may store the property; otherwise nothing changes. -/
theorem linkBacking_cases (property field : MemberId) :
    (∃ links, catalog.mayBack field property ∧ catalog.linksOf? property = some links) ∨
      (catalog.linkBacking property field = (false, catalog) ∧
        ¬(catalog.mayBack field property ∧ (catalog.linksOf? property).isSome)) := by
  cases allowed : catalog.mayBack field property with
  | false => exact .inr ⟨by simp [linkBacking, allowed], by simp⟩
  | true =>
      cases linked : catalog.linksOf? property with
      | none => exact .inr ⟨by simp [linkBacking, linked], by simp⟩
      | some links => exact .inl ⟨links, rfl, rfl⟩

end MemberGraph.Catalog
