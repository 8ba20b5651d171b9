import MemberGraph.Analysis.Accessor
import MemberGraph.Proofs.WellFormed

/-!
What the look-ups of a catalog rely on. This is less than the full invariant of a catalog, and any
sequence of operations keeps it. A member that a search by name finds on a type is one that the type
declares.
-/

set_option autoImplicit false

namespace MemberGraph

namespace Catalog

/-- What look-ups rely on: an index leads to entries, a member knows its id, and a type lists only
members that it declares. Names may differ from the keys of the index, and stored dependencies may
lead anywhere. -/
structure Sound (catalog : Catalog) : Prop where
  typeNamed? : ∀ {name id}, catalog.typeNamed? name = some id → catalog.hasType id
  memberNamed? : ∀ {name id}, catalog.memberNamed? name = some id → catalog.hasMember id
  memberId : ∀ {id member}, catalog.member? id = some member → member.id = id
  declared : ∀ {on entry}, catalog.type? on = some entry → ∀ id ∈ entry.members,
    ∃ member, catalog.member? id = some member ∧ member.declaringType = on

theorem WellFormed.sound {catalog : Catalog} (formed : catalog.WellFormed) : catalog.Sound where
  typeNamed? := formed.hasType_of_named
  memberNamed? := formed.hasMember_of_named
  memberId := formed.memberId
  declared found _ there := (formed.mem_members_iff found).mp there

namespace Sound

variable {catalog : Catalog}

theorem of_updated {old new : Catalog} (sound : old.Sound) (updated : old.Updated new) :
    new.Sound where
  typeNamed? {name id} named := by
    rw [updated.typeNamed?] at named
    exact updated.covers.hasType (sound.typeNamed? named)
  memberNamed? {name id} named := by
    rw [updated.memberNamed?] at named
    exact updated.covers.hasMember (sound.memberNamed? named)
  memberId found := by
    obtain ⟨member, there, extended⟩ := updated.member?_before found
    rw [extended.id, sound.memberId there]
  declared found id listed := by
    obtain ⟨entry, there, same⟩ := updated.type?_before found
    obtain ⟨member, memberFound, declared⟩ := sound.declared there id (same.members ▸ listed)
    obtain ⟨later, memberThere, extended⟩ := updated.member? memberFound
    exact ⟨later, memberThere, extended.declaringType.trans declared⟩

theorem addType (sound : catalog.Sound) {reference : TypeReference} {kind : TypeKind}
    {visibility : Visibility} {isStub : Bool} :
    (catalog.addType reference kind visibility isStub).2.Sound where
  typeNamed? {name id} named := by
    rw [typeNamed?_addType] at named
    rw [hasType_addType]
    split at named
    · cases named; exact .inr rfl
    · exact .inl (sound.typeNamed? named)
  memberNamed? := sound.memberNamed?
  memberId := sound.memberId
  declared {on entry} found id listed := by
    rcases (type?_addType_iff ..).mp found with ⟨rfl, rfl⟩ | found
    · simp [newType] at listed
    · exact sound.declared found id listed

theorem addMember (sound : catalog.Sound) {key : String} {make : MemberId → Member}
    (named : (make ⟨catalog.members.size⟩).id = ⟨catalog.members.size⟩) :
    (catalog.addMember key make).2.Sound := by
  cases fresh : catalog.memberNamed? key with
  | some id => rw [addMember_of_known make fresh]; exact sound
  | none =>
      constructor
      · intro name id typeNamed
        rw [typeNamed?_addMember] at typeNamed
        rw [hasType_addMember]
        exact sound.typeNamed? typeNamed
      · intro name id memberNamed
        rw [memberNamed?_addMember make fresh] at memberNamed
        rw [hasMember_addMember make fresh]
        split at memberNamed
        · cases memberNamed; exact .inr rfl
        · exact .inl (sound.memberNamed? memberNamed)
      · intro id member found
        rcases (member?_addMember_iff make fresh).mp found with ⟨rfl, rfl⟩ | found
        · exact named
        · exact sound.memberId found
      · intro on later found id listed
        obtain ⟨entry, there, rfl⟩ := type?_addMember_before make fresh found
        simp only [member?_addMember_iff make fresh]
        have before : id ∈ entry.members → ∃ member, catalog.member? id = some member ∧
            member.declaringType = on := sound.declared there id
        dsimp only at listed
        split at listed
        · next declared =>
            rcases Array.mem_push.mp listed with listed | rfl
            · obtain ⟨member, memberFound, sameType⟩ := before listed
              exact ⟨member, .inr memberFound, sameType⟩
            · exact ⟨_, .inl ⟨rfl, rfl⟩, declared⟩
        · obtain ⟨member, memberFound, sameType⟩ := before listed
          exact ⟨member, .inr memberFound, sameType⟩

theorem defineType (sound : catalog.Sound) (reference : TypeReference) (kind : TypeKind)
    (visibility : Visibility) : (catalog.defineType reference kind visibility).2.Sound := by
  unfold Catalog.defineType
  split
  · refine sound.of_updated (updated_updateType fun entry _ => ?_)
    unfold promote
    split <;> exact ⟨rfl, rfl, rfl⟩
  · exact sound.addType

end Sound

/-! ## Members of a type by name -/

end Catalog

theorem Selection.mem_of_unique? {α : Type} {candidates : List α} {value : α}
    (chosen : (Selection.among candidates).unique? = some value) : value ∈ candidates := by
  unfold Selection.among at chosen
  split at chosen <;> simp_all [Selection.unique?]

namespace Catalog

variable {catalog : Catalog}

theorem mem_declaredMembers (sound : catalog.Sound) {on : TypeId} {member : Member}
    (declared : member ∈ catalog.declaredMembers on) :
    catalog.member? member.id = some member ∧ member.declaringType = on := by
  unfold declaredMembers at declared
  split at declared
  · next entry found =>
      obtain ⟨id, listed, there⟩ := List.mem_filterMap.mp declared
      obtain ⟨other, same, on⟩ := sound.declared found id (Array.mem_toList_iff.mp listed)
      rw [there] at same
      cases same
      exact ⟨by rw [sound.memberId there, there], on⟩
  · cases declared

theorem declaredProperty_of_unique? (sound : catalog.Sound) {on : TypeId} {id : MemberId}
    (fits : Member → Bool)
    (chosen : (Selection.among (((catalog.declaredProperties on).filter fits).map
      (·.id))).unique? = some id) :
    ∃ member, catalog.member? id = some member ∧ member.isProperty ∧ member.declaringType = on := by
  obtain ⟨member, filtered, rfl⟩ := List.mem_map.mp (Selection.mem_of_unique? chosen)
  obtain ⟨declared, isProperty⟩ := List.mem_filter.mp (List.mem_filter.mp filtered).1
  obtain ⟨found, sameType⟩ := mem_declaredMembers sound declared
  exact ⟨member, found, isProperty, sameType⟩

theorem declaredField_of_unique? (sound : catalog.Sound) {on : TypeId} {id : MemberId} {name : String}
    (chosen : (catalog.fieldNamed on name).unique? = some id) :
    ∃ member, catalog.member? id = some member ∧ member.isField ∧ member.declaringType = on := by
  obtain ⟨member, filtered, rfl⟩ := List.mem_map.mp (Selection.mem_of_unique? chosen)
  obtain ⟨declared, isField⟩ := List.mem_filter.mp (List.mem_filter.mp filtered).1
  obtain ⟨found, sameType⟩ := mem_declaredMembers sound declared
  exact ⟨member, found, isField, sameType⟩

def implemented? (catalog : Catalog) (on : TypeId) (convention : Convention)
    (name fullName : String) : Option MemberId :=
  ((convention.property? name).bind fun candidate =>
      (catalog.propertyNamed on candidate).unique?).or
    ((convention.property? (FullName.memberName fullName)).bind fun candidate =>
      (catalog.propertyEnding on candidate).unique?)

theorem implemented?_declared (sound : catalog.Sound) {on : TypeId} {convention : Convention}
    {name fullName : String} {id : MemberId}
    (found : catalog.implemented? on convention name fullName = some id) :
    ∃ member, catalog.member? id = some member ∧ member.isProperty ∧ member.declaringType = on := by
  rcases Option.or_eq_some_iff.mp found with byName | ⟨_, byEnding⟩
  · obtain ⟨candidate, _, chosen⟩ := Option.bind_eq_some_iff.mp byName
    exact declaredProperty_of_unique? sound _ chosen
  · obtain ⟨candidate, _, chosen⟩ := Option.bind_eq_some_iff.mp byEnding
    exact declaredProperty_of_unique? sound _ chosen

/-- The property that an accessor of the type `on` is tied to, if it has a body. -/
def tied? (catalog : Catalog) (on : TypeId) (definition : MethodDefinition) : Option MemberId :=
  match definition.form.convention?, definition.body with
  | some convention, some _ =>
    catalog.implemented? on convention definition.name definition.fullName
  | _, _ => none

end Catalog

end MemberGraph
