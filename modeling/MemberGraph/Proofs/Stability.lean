import MemberGraph.Proofs.Loading
import Mathlib.Data.List.Forall2

/-!
What an extraction leaves alone. It adds stub types, and stub methods on stub types; so a type that
is defined keeps its entry, the searches for its members keep their answers, and a call that leads
somewhere at one moment leads there at every moment.
-/

set_option autoImplicit false

namespace MemberGraph

namespace Catalog

/-! ## Entries -/

def Defined (catalog : Catalog) (on : TypeId) : Prop :=
  ∃ entry, catalog.type? on = some entry ∧ entry.isStub = false

theorem Defined.isStubType {catalog : Catalog} {on : TypeId} (defined : catalog.Defined on) :
    catalog.isStubType on = false := by
  obtain ⟨entry, found, notStub⟩ := defined
  simp [Catalog.isStubType, found, notStub]

theorem type?_linkBacking {catalog : Catalog} (property field : MemberId) (on : TypeId) :
    (catalog.linkBacking property field).2.type? on = catalog.type? on :=
  linkBacking_induction (motive := fun later => later.type? on = catalog.type? on)
    (fun _ _ _ before => before) rfl property field

section Entries

variable {policy : CallPolicy} {old new : Catalog}

/-- A member that an extraction added: a stub on a stub type. -/
structure Added (policy : CallPolicy) (old new : Catalog) (id : MemberId) (member : Member) :
    Prop where
  missing : old.member? id = none
  wanted : policy = .stubExternal
  isStub : member.isStub
  role : ∃ parameters, member.role = .method { parameters }
  onStub : new.isStubType member.declaringType

theorem Added.isMethod {id : MemberId} {member : Member} (added : Added policy old new id member) :
    member.isMethod := by
  obtain ⟨parameters, role⟩ := added.role
  simp [Member.isMethod, Member.method?, role]

theorem Extends.isStubType (extended : old.Extends new) {on : TypeId} (stub : old.isStubType on) :
    new.isStubType on := by
  obtain ⟨entry, found, isStub⟩ := isStubType_iff.mp stub
  obtain ⟨later, there, entryExtended⟩ := extended.type? found
  exact isStubType_iff.mpr ⟨later, there, entryExtended.isStub.trans isStub⟩

theorem Extends.isStubType_eq (extended : old.Extends new) {on : TypeId} (known : old.hasType on) :
    new.isStubType on = old.isStubType on := by
  obtain ⟨entry, found⟩ := hasType_iff.mp known
  obtain ⟨later, there, entryExtended⟩ := extended.type? found
  simp [Catalog.isStubType, found, there, entryExtended.isStub]

theorem Growth.type?_of_defined (growth : Growth policy old new) {on : TypeId} {entry : TypeEntry}
    (found : old.type? on = some entry) (defined : entry.isStub = false) :
    new.type? on = some entry := by
  cases growth with
  | stubType fresh => exact (type?_addType_iff ..).mpr (.inr found)
  | @stubMethod target _ _ reference wanted stub fresh returnKnown parametersKnown =>
      have elsewhere : target ≠ on := by
        rintro rfl
        obtain ⟨other, there, isStub⟩ := isStubType_iff.mp stub
        rw [found] at there
        cases there
        rw [defined] at isStub
        cases isStub
      rw [type?_addMember _ fresh, Analysis.stubMethod, if_neg elsewhere]
      exact found
  | dependencies offered => exact found
  | link propertyFound fieldFound sameType =>
      rw [type?_linkBacking]
      exact found

theorem Growth.member?_before (growth : Growth policy old new) {id : MemberId} {later : Member}
    (found : new.member? id = some later) :
    (∃ member, old.member? id = some member ∧ member.Extends later) ∨
      Added policy old new id later := by
  cases growth with
  | stubType fresh => exact .inl ⟨later, found, .refl _⟩
  | @stubMethod target _ _ reference wanted stub fresh returnKnown parametersKnown =>
      rcases (member?_addMember_iff _ fresh).mp found with ⟨rfl, rfl⟩ | before
      · refine .inr ⟨by simp [member?], wanted, rfl, ⟨_, rfl⟩, ?_⟩
        exact (extends_addMember _ _).isStubType stub
      · exact .inl ⟨later, before, .refl _⟩
  | dependencies offered => exact .inl ((updated_addDependencies _ _).member?_before found)
  | link propertyFound fieldFound sameType =>
      exact .inl ((updated_linkBacking _ _).member?_before found)

theorem Growth.type?_before (growth : Growth policy old new) {id : TypeId} {later : TypeEntry}
    (found : new.type? id = some later) :
    (∃ entry, old.type? id = some entry ∧ entry.Extends later) ∨ later.isStub := by
  cases growth with
  | stubType fresh =>
      rcases (type?_addType_iff ..).mp found with ⟨_, rfl⟩ | before
      · exact .inr rfl
      · exact .inl ⟨later, before, .refl _⟩
  | stubMethod wanted stub fresh returnKnown parametersKnown =>
      obtain ⟨entry, before, _⟩ := type?_addMember_before _ fresh found
      obtain ⟨other, there, extended⟩ := (extends_addMember _ _).type? before
      rw [found] at there
      cases there
      exact .inl ⟨entry, before, extended⟩
  | dependencies offered => exact .inl ⟨later, found, .refl _⟩
  | link propertyFound fieldFound sameType =>
      rw [type?_linkBacking] at found
      exact .inl ⟨later, found, .refl _⟩

theorem Grows.type?_before (grows : Grows policy old new) {id : TypeId} {later : TypeEntry}
    (found : new.type? id = some later) :
    (∃ entry, old.type? id = some entry ∧ entry.Extends later) ∨ later.isStub := by
  induction grows generalizing later with
  | refl => exact .inl ⟨later, found, .refl _⟩
  | tail grown growth ih =>
      rcases growth.type?_before found with ⟨between, there, extended⟩ | isStub
      · rcases ih there with ⟨entry, before, entryExtended⟩ | isStub
        · exact .inl ⟨entry, before, entryExtended.trans extended⟩
        · exact .inr (extended.isStub.trans isStub)
      · exact .inr isStub

theorem Grows.type?_of_defined (grows : Grows policy old new) {on : TypeId} {entry : TypeEntry}
    (found : old.type? on = some entry) (defined : entry.isStub = false) :
    new.type? on = some entry := by
  induction grows with
  | refl => exact found
  | tail _ growth before => exact growth.type?_of_defined before defined

theorem Grows.defined (grows : Grows policy old new) {on : TypeId} (defined : old.Defined on) :
    new.Defined on := by
  obtain ⟨entry, found, notStub⟩ := defined
  exact ⟨entry, grows.type?_of_defined found notStub, notStub⟩

theorem Grows.defined_before (grows : Grows policy old new) {on : TypeId} (defined : new.Defined on) :
    old.Defined on := by
  obtain ⟨later, found, notStub⟩ := defined
  rcases grows.type?_before found with ⟨entry, before, extended⟩ | isStub
  · exact ⟨entry, before, by rwa [extended.isStub] at notStub⟩
  · rw [isStub] at notStub
    cases notStub

theorem Grows.member?_before (grows : Grows policy old new) {id : MemberId} {later : Member}
    (found : new.member? id = some later) :
    (∃ member, old.member? id = some member ∧ member.Extends later) ∨
      Added policy old new id later := by
  induction grows generalizing later with
  | refl => exact .inl ⟨later, found, .refl _⟩
  | tail grown growth ih =>
      rcases growth.member?_before found with ⟨between, there, extended⟩ | added
      · rcases ih there with ⟨member, before, memberExtended⟩ | added
        · exact .inl ⟨member, before, memberExtended.trans extended⟩
        · refine .inr ⟨added.missing, added.wanted, ?_, ?_, ?_⟩
          · rw [extended.isStub]
            exact added.isStub
          · obtain ⟨parameters, role⟩ := added.role
            exact ⟨parameters, extended.role_of_method role⟩
          · rw [extended.declaringType]
            exact growth.extends.isStubType added.onStub
      · refine .inr { added with missing := ?_ }
        cases before : old.member? id with
        | none => rfl
        | some member =>
            obtain ⟨between, there, _⟩ := (Grows.extends grown).member? before
            rw [added.missing] at there
            cases there

theorem Grows.field_before (grows : Grows policy old new) {id : MemberId} {later : Member}
    (found : new.member? id = some later) (isField : later.isField) :
    ∃ member, old.member? id = some member ∧ member.Extends later ∧ member.isField := by
  rcases grows.member?_before found with ⟨member, before, extended⟩ | added
  · exact ⟨member, before, extended, by rwa [extended.isField] at isField⟩
  · have isMethod := added.isMethod
    rw [Member.isMethod_of_isField isField] at isMethod
    cases isMethod

end Entries

/-! ## Searches on a defined type -/

section Searches

variable {policy : CallPolicy} {old new : Catalog} {on : TypeId}

/-- The methods of a defined type, or of any type if no stubs are wanted, stay the same. -/
theorem Grows.methodNamed? (grows : Grows policy old new) (formed : old.WellFormed)
    (settled : old.Defined on ∨ policy ≠ .stubExternal) (name : String) :
    new.methodNamed? on name = old.methodNamed? on name := by
  apply Option.ext
  intro id
  constructor
  · intro found
    obtain ⟨named, later, there, isMethod, declared⟩ := methodNamed?_eq_some_iff.mp found
    obtain ⟨same, sameFound, fullName⟩ := (grows.wellFormed formed).memberNamed?_iff.mp named
    rw [there] at sameFound
    cases sameFound
    rcases grows.member?_before there with ⟨member, before, extended⟩ | added
    · refine methodNamed?_eq_some_iff.mpr ⟨?_, member, before, ?_, ?_⟩
      · exact formed.memberNamed?_iff.mpr ⟨member, before, extended.fullName.symm.trans fullName⟩
      · rwa [extended.isMethod] at isMethod
      · rwa [extended.declaringType] at declared
    · rcases settled with defined | unwanted
      · have onStub := added.onStub
        rw [declared, (grows.defined defined).isStubType] at onStub
        cases onStub
      · exact absurd added.wanted unwanted
  · intro found
    obtain ⟨named, member, before, isMethod, declared⟩ := methodNamed?_eq_some_iff.mp found
    obtain ⟨later, there, extended⟩ := grows.extends.member? before
    refine methodNamed?_eq_some_iff.mpr ⟨grows.extends.memberNamed? named, later, there, ?_, ?_⟩
    · rwa [extended.isMethod]
    · rwa [extended.declaringType]

theorem Grows.declaredMembers (grows : Grows policy old new) (sound : old.Sound)
    (defined : old.Defined on) :
    List.Forall₂ Member.Extends (old.declaredMembers on) (new.declaredMembers on) := by
  obtain ⟨entry, found, notStub⟩ := defined
  have listed : ∀ ids : List MemberId, (∀ id ∈ ids, id ∈ entry.members) →
      List.Forall₂ Member.Extends (ids.filterMap old.member?) (ids.filterMap new.member?) := by
    intro ids
    induction ids with
    | nil => exact fun _ => .nil
    | cons id rest ih =>
        intro there
        obtain ⟨member, before, _⟩ := sound.declared found id (there id (by simp))
        obtain ⟨later, after, extended⟩ := grows.extends.member? before
        rw [List.filterMap_cons_some before, List.filterMap_cons_some after]
        exact .cons extended (ih fun other listed => there other (List.mem_cons_of_mem _ listed))
  simp only [Catalog.declaredMembers, found, grows.type?_of_defined found notStub]
  exact listed entry.members.toList fun id there => Array.mem_toList_iff.mp there

private theorem ids_of_fitting {fits : Member → Bool}
    (kept : ∀ {before after : Member}, before.Extends after → fits after = fits before)
    {before after : List Member} (extended : List.Forall₂ Member.Extends before after) :
    (after.filter fits).map (·.id) = (before.filter fits).map (·.id) := by
  induction extended with
  | nil => rfl
  | cons first _ ih =>
      simp only [List.filter_cons, kept first]
      split
      · simp only [List.map_cons, first.id, ih]
      · exact ih

theorem Grows.declaredProperties (grows : Grows policy old new) (sound : old.Sound)
    (defined : old.Defined on) {fits : Member → Bool}
    (kept : ∀ {before after : Member}, before.Extends after → fits after = fits before) :
    ((new.declaredProperties on).filter fits).map (·.id) =
      ((old.declaredProperties on).filter fits).map (·.id) := by
  simp only [Catalog.declaredProperties, List.filter_filter]
  refine ids_of_fitting (fun extended => ?_) (grows.declaredMembers sound defined)
  rw [kept extended, extended.isProperty]

theorem Grows.propertyNamed (grows : Grows policy old new) (sound : old.Sound)
    (defined : old.Defined on) (name : String) :
    new.propertyNamed on name = old.propertyNamed on name := by
  unfold Catalog.propertyNamed
  rw [grows.declaredProperties sound defined fun extended => by rw [extended.name]]

theorem Grows.propertyEnding (grows : Grows policy old new) (sound : old.Sound)
    (defined : old.Defined on) (suffix : String) :
    new.propertyEnding on suffix = old.propertyEnding on suffix := by
  unfold Catalog.propertyEnding
  rw [grows.declaredProperties sound defined fun extended => by rw [extended.fullName]]

theorem Grows.implemented? (grows : Grows policy old new) (sound : old.Sound)
    (defined : old.Defined on) (convention : Convention) (name fullName : String) :
    new.implemented? on convention name fullName =
      old.implemented? on convention name fullName := by
  unfold Catalog.implemented?
  simp only [grows.propertyNamed sound defined, grows.propertyEnding sound defined]

theorem Grows.tied? (grows : Grows policy old new) (sound : old.Sound) (defined : old.Defined on)
    (definition : MethodDefinition) : new.tied? on definition = old.tied? on definition := by
  unfold Catalog.tied?
  simp only [grows.implemented? sound defined]

theorem Grows.receiver (grows : Grows policy old new) {property : MemberId} {member : Member}
    (found : old.member? property = some member) (method : MemberId) (form : MethodForm) :
    Analysis.receiver new property method form = Analysis.receiver old property method form := by
  obtain ⟨later, there, extended⟩ := grows.extends.member? found
  have same := extended.accessors
  unfold Analysis.receiver linksOf?
  simp only [found, there, Option.bind_eq_bind, Option.bind_some]
  cases before : member.property? with
  | none =>
      rw [before, Option.map_none, Option.map_eq_none_iff] at same
      rw [same]
  | some links =>
      obtain ⟨laterLinks, after, getter, setter⟩ := extended.property? before
      rw [after]
      simp only [Option.getD_some, getter, setter]

end Searches

/-! ## Calls -/

def resolvable (catalog : Catalog) (policy : CallPolicy) (reference : MethodReference) : Bool :=
  match catalog.typeNamed? reference.declaringType.fullName with
  | some on => (catalog.methodNamed? on reference.fullName).isSome ||
      (policy = .stubExternal && catalog.isStubType on)
  | none => policy = .stubExternal

section Calls

variable {policy : CallPolicy} {old new : Catalog}

private theorem methodNamed?_of_missingType {catalog : Catalog} (formed : catalog.WellFormed)
    {on : TypeId}
    (missing : catalog.type? on = none) (name : String) : catalog.methodNamed? on name = none := by
  cases found : catalog.methodNamed? on name with
  | none => rfl
  | some id =>
      obtain ⟨_, member, there, _, declared⟩ := methodNamed?_eq_some_iff.mp found
      have known := (formed.knowsMember there).declaringType
      obtain ⟨entry, typeFound⟩ := hasType_iff.mp (declared ▸ known)
      rw [missing] at typeFound
      cases typeFound

/-- What a call leads to does not depend on what was extracted before. -/
theorem Grows.resolvable (grows : Grows policy old new) (formed : old.WellFormed)
    (reference : MethodReference) :
    new.resolvable policy reference = old.resolvable policy reference := by
  unfold Catalog.resolvable
  cases known : old.typeNamed? reference.declaringType.fullName with
  | some on =>
      rw [grows.extends.typeNamed? known]
      obtain ⟨entry, found, _⟩ := formed.typeNamed?_iff.mp known
      dsimp only
      cases isStub : entry.isStub with
      | false =>
          have defined : old.Defined on := ⟨entry, found, isStub⟩
          rw [grows.methodNamed? formed (.inl defined), defined.isStubType,
            (grows.defined defined).isStubType]
      | true =>
          have stub : old.isStubType on := isStubType_iff.mpr ⟨entry, found, isStub⟩
          rw [stub, grows.extends.isStubType stub]
          cases policy with
          | existingOnly => rw [grows.methodNamed? formed (.inr (by simp))]
          | stubExternal => simp
  | none =>
      cases named : new.typeNamed? reference.declaringType.fullName with
      | none => rfl
      | some on =>
          have formedNew := grows.wellFormed formed
          obtain ⟨later, found, fullName⟩ := formedNew.typeNamed?_iff.mp named
          have missing : old.type? on = none := by
            cases before : old.type? on with
            | none => rfl
            | some entry =>
                obtain ⟨other, there, extended⟩ := grows.extends.type? before
                rw [found] at there
                cases there
                have namedBefore := formed.typeNamed?_iff.mpr
                  ⟨entry, before, extended.fullName.symm.trans fullName⟩
                rw [known] at namedBefore
                cases namedBefore
          dsimp only
          cases policy with
          | existingOnly =>
              rw [grows.methodNamed? formed (.inr (by simp)),
                methodNamed?_of_missingType formed missing]
              simp
          | stubExternal =>
              rcases grows.type?_before found with ⟨entry, before, _⟩ | isStub
              · rw [missing] at before
                cases before
              · have stub : new.isStubType on := isStubType_iff.mpr ⟨later, found, isStub⟩
                simp [stub]

end Calls

end Catalog

namespace Analysis

open Catalog

variable {analysis : Analysis} {policy : CallPolicy}

theorem resolve_isSome (formed : analysis.catalog.WellFormed) (policy : CallPolicy)
    (reference : MethodReference) :
    (analysis.resolve policy reference).1.isSome =
      analysis.catalog.resolvable policy reference := by
  have typed : Grows policy analysis.catalog
      (analysis.typeFor reference.declaringType).2.catalog := typeFor_grows reference.declaringType
  rw [← typed.resolvable formed]
  unfold Catalog.resolvable
  rw [typeFor_named]
  dsimp only
  rcases @resolve_cases analysis policy reference with
    ⟨id, found, resolved⟩ | ⟨missing, ⟨wanted, stub⟩, resolved⟩ | ⟨missing, refused, resolved⟩
  · simp [resolved, found]
  · rw [resolved, stub]
    simp [wanted]
  · rw [resolved.1, missing]
    simpa using refused

end Analysis

end MemberGraph
