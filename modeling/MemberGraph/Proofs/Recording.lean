import MemberGraph.Proofs.NamedArchitecture

/-!
An extraction, step by step, by what it records. Looking names up records nothing. A method gets what
it uses itself, and a property the calls whose results are stored in its field. An accessor that is
tied to a property shares with it the calls of its body and what the backing field depends on. Every
extraction that succeeds consists of such steps.
-/

set_option autoImplicit false

namespace MemberGraph
namespace Catalog

open Analysis Relation

/-- The catalog grew, but no member depends on anything more. -/
structure Quiet (policy : CallPolicy) (old new : Catalog) : Prop where
  grows : Grows policy old new
  recorded : recordedDependencies new = recordedDependencies old

theorem Quiet.trans {policy : CallPolicy} {first second third : Catalog}
    (quiet : Quiet policy first second) (quietToo : Quiet policy second third) :
    Quiet policy first third :=
  ⟨quiet.grows.trans quietToo.grows, quietToo.recorded.trans quiet.recorded⟩

def recordTied (catalog : Catalog) (property accessor : MemberId)
    (targets : List (Option MemberId)) : Catalog :=
  let shared := callsTo property targets ++ inherited catalog property
  (catalog.addDependencies accessor shared).addDependencies property shared

/-- One step of an extraction, with all that it records. -/
inductive Recording (policy : CallPolicy) : Catalog → Catalog → Prop where
  | lookUp {old new : Catalog} (quiet : Quiet policy old new)
      (links : ∀ property, new.backingField? property = old.backingField? property) :
      Recording policy old new
  | own {catalog : Catalog} {id : MemberId} {method : Member} (signature body : List TypeId)
      (targets : List (Option MemberId)) (found : catalog.member? id = some method)
      (isMethod : method.isMethod) :
      Recording policy catalog (catalog.addDependencies id
        (signature.map (.onType .signature id) ++ body.map (.onType .body id) ++ callsTo id targets))
  | attach {catalog : Catalog} {property : MemberId} {owner : Member} (target : MemberId)
      (found : catalog.member? property = some owner) (isProperty : owner.isProperty) :
      Recording policy catalog (catalog.addDependencies property [.call property target])
  /-- The property may have got another backing field, and no other property has. -/
  | tie {catalog stored : Catalog} {property accessor : MemberId} {owner method : Member}
      (targets : List (Option MemberId)) (quiet : Quiet policy catalog stored)
      (elsewhere : ∀ other, other ≠ property →
        stored.backingField? other = catalog.backingField? other)
      (ownerFound : stored.member? property = some owner) (isProperty : owner.isProperty)
      (methodFound : stored.member? accessor = some method) (isMethod : method.isMethod)
      (sameType : method.declaringType = owner.declaringType) :
      Recording policy catalog (stored.recordTied property accessor targets)

abbrev Recordings (policy : CallPolicy) : Catalog → Catalog → Prop :=
  ReflTransGen (Recording policy)

/-- A step relinks backing fields at most, within their type. -/
theorem Recording.relinkings {policy : CallPolicy} {old new : Catalog}
    (recording : Recording policy old new) : Relinkings False old new := by
  cases recording with
  | lookUp quiet links => exact quiet.grows.relinkings
  | own signature body targets found isMethod =>
      exact .single (.of_linkState (linkState_addDependencies _ _))
  | attach target found isProperty => exact .single (.of_linkState (linkState_addDependencies _ _))
  | tie targets quiet =>
      have storing : Relinkings False old _ := quiet.grows.relinkings
      exact (storing.tail (.of_linkState (linkState_addDependencies _ _))).tail
        (.of_linkState (linkState_addDependencies _ _))

end Catalog

namespace Analysis

open Catalog Relation

variable {analysis : Analysis} {options : Options} {policy : CallPolicy} {on : TypeId}

private theorem typeUses_quiet (use : TypeUse) (origin : MemberId)
    (references : List TypeReference) :
    Quiet policy analysis.catalog (analysis.typeUses use origin references).2.catalog :=
  ⟨typeUses_grows use origin references, typeUses_recorded use origin references⟩

private theorem resolve_quiet (sound : analysis.catalog.Sound) (reference : MethodReference) :
    Quiet policy analysis.catalog (analysis.resolve policy reference).2.catalog :=
  ⟨resolve_grows sound reference, resolve_recorded reference⟩

private theorem resolveAll_quiet (sound : analysis.catalog.Sound)
    (references : List MethodReference) :
    Quiet policy analysis.catalog (analysis.resolveAll policy references).2.catalog :=
  ⟨resolveAll_grows sound references, resolveAll_recorded references⟩

/-! ## Stored calls -/

private theorem attachCall_records (sound : analysis.catalog.Sound) (reference : MethodReference)
    (field : FieldReference) :
    Recordings policy analysis.catalog (analysis.attachCall policy on reference field).2.catalog := by
  have resolving : ∀ {searched : Analysis}, searched.catalog = analysis.catalog →
      Recording policy analysis.catalog (searched.resolve policy reference).2.catalog := by
    intro searched same
    rw [← same] at sound ⊢
    exact .lookUp (resolve_quiet sound reference)
      (backingField?_of_stubbed (resolve_stubbed reference))
  rcases @attachCall_cases analysis policy on reference field with
    ⟨property, target, searched, implemented, same, _, _, final⟩ |
    ⟨property, searched, _, same, _, _, final⟩ | ⟨_, _, final⟩
  · obtain ⟨owner, found, isProperty, _⟩ := implemented?_declared sound implemented
    have stubbed : searched.catalog.Stubbed (searched.resolve policy reference).2.catalog :=
      resolve_stubbed reference
    have there := stubbed.member? (same ▸ found)
    rw [final]
    exact (ReflTransGen.single (resolving same)).tail (.attach target there isProperty)
  · rw [final]
    exact .single (resolving same)
  · rw [final]

private theorem attachCalls_records (sound : analysis.catalog.Sound)
    (calls : List (MethodReference × FieldReference)) :
    Recordings policy analysis.catalog (analysis.attachCalls policy on calls).2.catalog := by
  induction calls generalizing analysis with
  | nil => exact .refl
  | cons call rest ih =>
      have grown : Grows policy analysis.catalog
          (analysis.attachCall policy on call.1 call.2).2.catalog :=
        attachCall_grows sound on call.1 call.2
      exact (attachCall_records sound call.1 call.2).trans (ih (grown.sound sound))

private theorem attachStoredCalls_records (sound : analysis.catalog.Sound) (body : MethodBody) :
    Recordings policy analysis.catalog (analysis.attachStoredCalls policy on body).2.catalog := by
  unfold attachStoredCalls
  split
  · exact attachCalls_records sound _
  · exact .refl

/-! ## Accessors -/

private theorem linkStorage_elsewhere {catalog : Catalog} {property other : MemberId}
    (different : other ≠ property) (body : MethodBody) :
    (linkStorage catalog on property body).backingField? other = catalog.backingField? other := by
  unfold linkStorage
  split
  · next field _ =>
      rcases catalog.linkBacking_cases property field with ⟨links, allowed, linked⟩ | ⟨refused, _⟩
      · rw [backingField?_linkBacking allowed linked, if_neg different.symm]
      · rw [refused]
  · rfl

private theorem linkAccessor_records (ready : Ready analysis.catalog on)
    {property method : MemberId}
    {owner entry : Member} (found : analysis.catalog.member? property = some owner)
    (isProperty : owner.isProperty) (declared : owner.declaringType = on)
    (entryFound : analysis.catalog.member? method = some entry) (isMethod : entry.isMethod)
    (entryDeclared : entry.declaringType = on) {definition : MethodDefinition} {body : MethodBody}
    {link : AccessorLink}
    (succeeded : (analysis.linkAccessor policy on property method definition body).1 = .ok link) :
    Recordings policy analysis.catalog
      (analysis.linkAccessor policy on property method definition body).2.catalog := by
  have storing : Quiet policy analysis.catalog (analysis.withStorage policy on property body) :=
    ⟨withStorage_grows ready.formed.sound found declared body, withStorage_recorded property body⟩
  have elsewhere : ∀ other, other ≠ property →
      (analysis.withStorage policy on property body).backingField? other =
        analysis.catalog.backingField? other := by
    intro other different
    exact (linkStorage_elsewhere different body).trans
      (backingField?_of_stubbed (resolveAll_stubbed _) other)
  obtain ⟨later, ownerFound, extended⟩ := storing.grows.extends.member? found
  obtain ⟨laterEntry, methodFound, extendedEntry⟩ := storing.grows.extends.member? entryFound
  -- The accessor that the property is linked to already is a method of the same type as well.
  obtain ⟨accessor, accessorFound, given, sameType⟩ : ∃ accessor : Member,
      (analysis.withStorage policy on property body).member? (receiver
        (analysis.withStorage policy on property body) property method definition.form) =
          some accessor ∧ accessor.isMethod ∧ accessor.declaringType = later.declaringType := by
    rcases receiver_cases (storing.grows.wellFormed ready.formed) property method definition.form with
      same | ⟨other, accessor, otherFound, accessorFound, given, sameType⟩
    · refine ⟨laterEntry, by rw [same, methodFound], ?_, ?_⟩
      · rw [extendedEntry.isMethod, isMethod]
      · rw [extendedEntry.declaringType, extended.declaringType, entryDeclared, declared]
    · rw [ownerFound] at otherFound
      cases otherFound
      exact ⟨accessor, accessorFound, given, sameType⟩
  rcases @linkAccessor_cases analysis policy on property method definition body with
    ⟨_, _, final⟩ | ⟨_, failed, _⟩
  · rw [final]
    exact .single (.tie _ storing elsewhere ownerFound (extended.isProperty.trans isProperty)
      accessorFound given sameType)
  · rw [failed] at succeeded
    cases succeeded

private theorem tieAccessor_records (ready : Ready analysis.catalog on) {method : MemberId}
    {entry : Member}
    (entryFound : analysis.catalog.member? method = some entry) (isMethod : entry.isMethod)
    (entryDeclared : entry.declaringType = on) {definition : MethodDefinition} {link : AccessorLink}
    (succeeded : (analysis.tieAccessor policy on method definition).1 = .ok link) :
    Recordings policy analysis.catalog
      (analysis.tieAccessor policy on method definition).2.catalog := by
  rcases @tieAccessor_cases analysis policy on method definition with
    ⟨property, body, searched, tied, _, same, opened⟩ | ⟨_, unchanged, _⟩
  · obtain ⟨owner, found, isProperty, declared⟩ := tied?_declared ready.formed.sound tied
    rw [opened] at succeeded ⊢
    rw [← same] at ready found entryFound ⊢
    exact linkAccessor_records ready found isProperty declared entryFound isMethod entryDeclared
      succeeded
  · rw [unchanged]

/-! ## Methods -/

private theorem methodCalls_records (ready : Ready analysis.catalog on) {id : MemberId}
    {entry : Member} (found : analysis.catalog.member? id = some entry) (isMethod : entry.isMethod)
    (declared : entry.declaringType = on) {method : MethodDefinition} {calls : List Dependency}
    {statistics : Statistics}
    (succeeded : (analysis.methodCalls options on id method).1 = .ok (calls, statistics)) :
    Recordings options.callPolicy analysis.catalog
        (analysis.methodCalls options on id method).2.catalog ∧
      ∃ targets, calls = callsTo id targets := by
  rcases @methodCalls_cases analysis options on id method with
    ⟨_, opened⟩ | ⟨body, _, _, final, outcome⟩ | ⟨body, _, _, final, outcome⟩
  · rw [opened] at succeeded ⊢
    cases succeeded
    exact ⟨.refl, [], rfl⟩
  · rw [outcome] at succeeded
    cases tied : (analysis.tieAccessor options.callPolicy on id method).1 with
    | error error =>
        rw [tied] at succeeded
        cases succeeded
    | ok link =>
        rw [tied] at succeeded
        cases succeeded
        rw [final]
        exact ⟨tieAccessor_records ready found isMethod declared tied, [], rfl⟩
  · rw [outcome] at succeeded
    cases succeeded
    rw [final]
    have attached : Grows options.callPolicy analysis.catalog
        (analysis.attachStoredCalls options.callPolicy on body).2.catalog :=
      attachStoredCalls_grows ready.formed.sound on body
    exact ⟨(attachStoredCalls_records ready.formed.sound body).tail (.lookUp
      (resolveAll_quiet (attached.sound ready.formed.sound) _)
      (backingField?_of_stubbed (resolveAll_stubbed _))), _, rfl⟩

private theorem extractKnownMethod_records (ready : Ready analysis.catalog on) {id : MemberId}
    {entry : Member} (found : analysis.catalog.member? id = some entry) (isMethod : entry.isMethod)
    (declared : entry.declaringType = on) {method : MethodDefinition} {statistics : Statistics}
    (succeeded : (analysis.extractKnownMethod options on id method).1 = .ok statistics) :
    Recordings options.callPolicy analysis.catalog
      (analysis.extractKnownMethod options on id method).2.catalog := by
  have quiet : Quiet options.callPolicy analysis.catalog
      ((analysis.signatureUses id method).2.bodyUses id method.body).2.catalog :=
    (typeUses_quiet ..).trans (typeUses_quiet ..)
  have stubbed : analysis.catalog.Stubbed
      ((analysis.signatureUses id method).2.bodyUses id method.body).2.catalog :=
    (typeUses_stubbed ..).trans (typeUses_stubbed ..)
  have looking : Recording options.callPolicy _ _ := .lookUp quiet (backingField?_of_stubbed stubbed)
  have readyUsed := ready.grown quiet.grows fun _ _ => by
    rw [recordedCount, quiet.recorded, recordedCount]
  rcases @extractKnownMethod_cases analysis options on id method with
    ⟨calls, counts, called, _, final⟩ | ⟨error, _, failed⟩
  · obtain ⟨calling, targets, rfl⟩ :=
      methodCalls_records readyUsed (stubbed.member? found) isMethod declared called
    have grown : Grows options.callPolicy _ _ := methodCalls_grows readyUsed.formed.sound on id method
    obtain ⟨later, there, extended⟩ := grown.extends.member? (stubbed.member? found)
    rw [final]
    exact (ReflTransGen.head looking calling).tail
      (.own _ _ targets there (extended.isMethod.trans isMethod))
  · rw [failed] at succeeded
    cases succeeded

private theorem extractMethod_records (ready : Ready analysis.catalog on)
    {method : MethodDefinition} {statistics : Statistics}
    (succeeded : (analysis.extractMethod options on method).1 = .ok statistics) :
    Recordings options.callPolicy analysis.catalog
      (analysis.extractMethod options on method).2.catalog := by
  unfold extractMethod at succeeded ⊢
  cases entered : analysis.catalog.methodNamed? on method.fullName with
  | none => exact .refl
  | some id =>
      obtain ⟨_, entry, found, isMethod, declared⟩ := methodNamed?_eq_some_iff.mp entered
      simp only [entered] at succeeded
      exact extractKnownMethod_records ready found isMethod declared succeeded

/-- A successful extraction is a run of such steps, from the catalog that holds the definitions. -/
theorem extracted_records {metadata : Metadata} {statistics : Statistics}
    (succeeded : ((allocate {} metadata).2.extractTypes options (allocate {} metadata).1).1 =
      .ok statistics) :
    Recordings options.callPolicy (allocate {} metadata).2.catalog
      ((allocate {} metadata).2.extractTypes options (allocate {} metadata).1).2.catalog := by
  have kept : KeptByExtraction options fun _ _ =>
      Recordings options.callPolicy (allocate {} metadata).2.catalog := by
    intro analysis on method done total counts ready ok before
    exact before.trans (extractMethod_records ready ok)
  exact kept.extracted succeeded .refl

end Analysis
end MemberGraph
