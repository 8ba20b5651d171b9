import MemberGraph.Proofs.ExtractionRun
import MemberGraph.Proofs.Mirror

/-!
What is a stub and what is not, after a whole analysis. The types that metadata defines come first and
are no stubs, and they declare what their definitions say and nothing else. All other types are stubs,
and what is declared on them are stubs of methods, which depend on nothing.
-/

set_option autoImplicit false

namespace MemberGraph

namespace Catalog

/-! ## Types -/

/-- All types from a position on are stubs of no known kind. -/
def StubsFrom (position : Nat) (catalog : Catalog) : Prop :=
  ∀ id entry, catalog.type? id = some entry → position ≤ id.index →
    entry.isStub ∧ entry.kind = .unknown

namespace StubsFrom

variable {position : Nat} {catalog old new : Catalog}

theorem addStubType (stubs : StubsFrom position catalog) (reference : TypeReference) :
    StubsFrom position (catalog.addStubType reference).2 := by
  intro id entry found after
  rcases (type?_addType_iff ..).mp found with ⟨_, rfl⟩ | before
  · exact ⟨rfl, rfl⟩
  · exact stubs id entry before after

theorem addMember (stubs : StubsFrom position catalog) (key : String) (make : MemberId → Member) :
    StubsFrom position (catalog.addMember key make).2 := by
  cases fresh : catalog.memberNamed? key with
  | some id =>
      rw [addMember_of_known make fresh]
      exact stubs
  | none =>
      intro id entry found after
      obtain ⟨before, there, rfl⟩ := type?_addMember_before make fresh found
      exact stubs id before there after

theorem grown {policy : CallPolicy} (stubs : StubsFrom position old) (grows : Grows policy old new) :
    StubsFrom position new := by
  induction grows with
  | refl => exact stubs
  | tail _ growth before =>
      cases growth with
      | stubType fresh => exact before.addStubType _
      | stubMethod wanted stub fresh returnKnown parametersKnown => exact before.addMember _ _
      | dependencies offered => exact before
      | link propertyFound fieldFound sameType =>
          intro id entry found after
          rw [type?_linkBacking] at found
          exact before id entry found after

theorem mirrored {held : List (TypeId × Dependency)} (stubs : StubsFrom position old)
    (mirrors : old.Mirrors held new) : StubsFrom position new := by
  intro id later found after
  obtain ⟨entry, _, _, there, rfl⟩ := mirrors.type?_before found
  exact stubs id entry there after

end StubsFrom

/-! ## Members of a type -/

private theorem WellFormed.members_ids {catalog : Catalog} (formed : catalog.WellFormed) :
    (catalog.members.toList.map (·.id)).Pairwise (·.index < ·.index) := by
  rw [List.pairwise_map, List.pairwise_iff_getElem]
  intro first second inFirst inSecond before
  have atFirst : catalog.members.toList[first].id = ⟨first⟩ := formed.memberId (by simp [member?])
  have atSecond : catalog.members.toList[second].id = ⟨second⟩ := formed.memberId (by simp [member?])
  rw [atFirst, atSecond]
  exact before

theorem WellFormed.member?_of_mem {catalog : Catalog} (formed : catalog.WellFormed) {member : Member}
    (there : member ∈ catalog.members.toList) : catalog.member? member.id = some member := by
  obtain ⟨index, found⟩ := List.getElem?_of_mem there
  have atIndex : catalog.member? ⟨index⟩ = some member := by
    rw [member?, ← Array.getElem?_toList, found]
  rw [formed.memberId atIndex]
  exact atIndex

theorem WellFormed.members_eq {catalog : Catalog} (formed : catalog.WellFormed) {on : TypeId}
    {entry : TypeEntry} (found : catalog.type? on = some entry) :
    entry.members.toList =
      (catalog.members.toList.filter (·.declaringType = on)).map (·.id) := by
  have listed := formed.increasing found
  have filtered : ((catalog.members.toList.filter (·.declaringType = on)).map (·.id)).Pairwise
      (·.index < ·.index) :=
    formed.members_ids.sublist (List.filter_sublist.map _)
  have distinct : ∀ {ids : List MemberId}, ids.Pairwise (·.index < ·.index) → ids.Nodup := by
    intro ids increasing
    exact increasing.imp fun before same => by subst same; omega
  have same : ∀ id, id ∈ entry.members.toList ↔
      id ∈ (catalog.members.toList.filter (·.declaringType = on)).map (·.id) := by
    intro id
    rw [Array.mem_toList_iff, formed.mem_members_iff found, List.mem_map]
    constructor
    · intro ⟨member, there, declared⟩
      refine ⟨member, List.mem_filter.mpr ⟨?_, decide_eq_true declared⟩, formed.memberId there⟩
      exact Array.mem_toList_iff.mpr (Array.mem_of_getElem? there)
    · intro ⟨member, listed, named⟩
      obtain ⟨there, declared⟩ := List.mem_filter.mp listed
      exact ⟨member, named ▸ formed.member?_of_mem there, of_decide_eq_true declared⟩
  refine List.Perm.eq_of_pairwise (fun first second _ _ before after => ?_) listed filtered
    ((List.perm_ext_iff_of_nodup (distinct listed) (distinct filtered)).mpr same)
  omega

end Catalog

namespace Analysis

open Catalog

/-! ## What stubs depend on -/

section Foreign

variable {catalog : Catalog} {policy : CallPolicy} {on : TypeId} {id : MemberId}

/-- A member that the type `on` does not declare gets nothing from the methods of the type. -/
theorem gain_of_foreign (formed : catalog.WellFormed)
    (foreign : ∀ {member}, catalog.member? id = some member → member.declaringType ≠ on)
    (method : MethodDefinition) (stored : Bool) : gain catalog policy on method stored id = 0 := by
  have elsewhere : ∀ {other member}, catalog.member? other = some member →
      member.declaringType = on → other ≠ id := by
    intro other member found declared same
    subst same
    exact foreign found declared
  unfold gain
  cases entered : catalog.methodNamed? on method.fullName with
  | none => rfl
  | some entry =>
      obtain ⟨_, member, found, _, declared⟩ := methodNamed?_eq_some_iff.mp entered
      have untied : tiedGain catalog policy on entry method stored id = 0 := by
        refine tiedGain_of_unrelated (fun property tied => ?_) stored
        obtain ⟨owner, there, _, onType⟩ := tied?_declared formed.sound tied
        refine ⟨?_, elsewhere there onType⟩
        rcases receiver_cases formed property entry method.form with
          itself | ⟨other, accessor, otherFound, accessorFound, _, sameType⟩
        · rw [itself]
          exact elsewhere found declared
        · rw [there] at otherFound
          cases otherFound
          exact elsewhere accessorFound (sameType.trans onType)
      have unattached :
          (ownStoredCalls catalog on method).countP (attaches catalog policy on id) = 0 := by
        refine List.countP_eq_zero.mpr fun call _ attached => ?_
        unfold attaches at attached
        rw [Bool.and_eq_true, decide_eq_true_iff] at attached
        obtain ⟨owner, there, _, onType⟩ := implemented?_declared formed.sound attached.1
        exact elsewhere there onType rfl
      dsimp only
      rw [untied, unattached, if_neg (elsewhere found declared)]

end Foreign

/-- What is declared on a stub type, or not at all, depends on nothing. -/
def StubsBare (catalog : Catalog) : Prop :=
  ∀ id, (∀ {member}, catalog.member? id = some member → catalog.isStubType member.declaringType) →
    recordedCount catalog id = 0

private theorem stubsBare_extraction {options : Options} :
    KeptByExtraction options fun _ _ catalog => StubsBare catalog := by
  intro analysis on method done total statistics ready ok bare id onStub
  have grows : Grows options.callPolicy analysis.catalog
      (analysis.extractMethod options on method).2.catalog :=
    extractMethod_grows ready.formed.sound on method
  have onStubBefore : ∀ {member}, analysis.catalog.member? id = some member →
      analysis.catalog.isStubType member.declaringType := by
    intro member found
    obtain ⟨later, there, extended⟩ := grows.extends.member? found
    have stub := onStub there
    rwa [extended.declaringType,
      grows.extends.isStubType_eq (ready.formed.knowsMember found).declaringType] at stub
  have foreign : ∀ {member}, analysis.catalog.member? id = some member →
      member.declaringType ≠ on := by
    intro member found same
    have stub := onStubBefore found
    rw [same, ready.defined.isStubType] at stub
    cases stub
  rw [extractMethod_count ready ok id, gain_of_foreign ready.formed foreign, bare id onStubBefore]

/-! ## Members of a defined type -/

/-- A member stands for a definition: it is the entry that was made for it, which extraction may have
added to. -/
def Describes (on : TypeId) (definition : MemberDefinition) (member : Member) : Prop :=
  ∃ entered, IsEntry on definition entered ∧ entered.Extends member

theorem allocated_type? {metadata : Metadata} {id : TypeId} {given : String × TypeDefinition}
    (listed : metadata.firstTypes[id.index]? = some given) :
    ∃ entry, (allocate {} metadata).2.catalog.type? id = some entry ∧
      (definedEntry given id).Extends entry := by
  refine (typesLoaded_extends metadata).type? ?_
  rw [(typesLoaded_inOrder metadata).type?]
  exact Option.map_eq_some_iff.mpr ⟨given, listed, rfl⟩

theorem allocated_members {metadata : Metadata} {id : TypeId} {entry : TypeEntry}
    (found : (allocate {} metadata).2.catalog.type? id = some entry) :
    List.Forall₂
      (fun definition declared => ∃ member,
        (allocate {} metadata).2.catalog.member? declared = some member ∧
        IsEntry id definition member)
      (metadata.firstMembersOf entry.fullName) entry.members.toList := by
  have formed := allocated_wellFormed metadata
  have inOrder := allocated_membersInOrder metadata
  have names : (allocate {} metadata).2.catalog.typeNamed? entry.fullName = some id :=
    formed.typeNamed?_iff.mpr ⟨entry, found, rfl⟩
  rw [formed.members_eq found, Metadata.firstMembersOf, List.forall₂_map_left_iff,
    List.forall₂_map_right_iff]
  -- A definition is one for the name of the type exactly if its entry is declared on the type.
  have filtered := List.rel_filter (p := (·.1 = entry.fullName)) (q := (·.declaringType = id))
    (fun given member related => by simp [formed.typeNamed?_inj related.1.1 names]) inOrder
  refine List.forall₂_iff_zip.mpr ⟨filtered.length_eq, fun {given member} paired => ?_⟩
  obtain ⟨there, declared⟩ := List.mem_filter.mp (List.of_mem_zip paired).2
  have onType : member.declaringType = id := of_decide_eq_true declared
  refine ⟨member, formed.member?_of_mem there, ?_⟩
  rw [← onType]
  exact (List.forall₂_zip filtered paired).2

/-! ## Whole analyses -/

section Built

variable {options : Options} {metadata : Metadata} {architecture : Architecture}
  (built : (Architecture.build options metadata).1 = .ok architecture)
include built

theorem built_type? {id : TypeId} {given : String × TypeDefinition}
    (listed : metadata.firstTypes[id.index]? = some given) :
    ∃ entry dependencies backwards, (allocate {} metadata).2.catalog.type? id = some entry ∧
      (definedEntry given id).Extends entry ∧
      architecture.catalog.type? id = some { entry with dependencies, backwards } := by
  obtain ⟨_, held, mirrors⟩ := build_mirrors built
  obtain ⟨entry, found, extended⟩ := allocated_type? listed
  have grows := extracted_grows metadata options
  have kept := grows.type?_of_defined found extended.isStub
  exact ⟨entry, _, _, found, extended, by rw [mirrors.type?, kept]; rfl⟩

theorem built_members {id : TypeId} {entry : TypeEntry}
    (found : (allocate {} metadata).2.catalog.type? id = some entry) :
    List.Forall₂
      (fun definition declared => ∃ member, architecture.catalog.member? declared = some member ∧
        Describes id definition member)
      (metadata.firstMembersOf entry.fullName) entry.members.toList := by
  obtain ⟨_, held, mirrors⟩ := build_mirrors built
  have grows := extracted_grows metadata options
  refine (allocated_members found).imp fun definition declared described => ?_
  obtain ⟨member, there, isEntry⟩ := described
  obtain ⟨later, laterFound, extended⟩ := (grows.extends.trans mirrors.extends).member? there
  exact ⟨later, laterFound, member, isEntry, extended⟩

theorem built_stubTypes : StubsFrom metadata.firstTypes.length architecture.catalog := by
  obtain ⟨_, held, mirrors⟩ := build_mirrors built
  have grows := extracted_grows metadata options
  have kept : KeptByLoading (StubsFrom metadata.firstTypes.length) := by
    constructor
    · exact fun _ stubs => stubs.addStubType _
    · exact fun _ stubs => stubs.addMember _ _
    · exact fun stubs => stubs
  have noneLoaded : StubsFrom metadata.firstTypes.length (typesLoaded metadata).2.catalog := by
    intro id entry found after
    rw [(typesLoaded_inOrder metadata).type?] at found
    obtain ⟨given, listed, _⟩ := Option.map_eq_some_iff.mp found
    have before := (List.getElem?_eq_some_iff.mp listed).1
    exact absurd after (Nat.not_le.mpr before)
  have allocated : StubsFrom metadata.firstTypes.length (allocate {} metadata).2.catalog :=
    kept.foldl_loadMembers noneLoaded _
  exact (allocated.grown grows).mirrored mirrors

theorem built_member? {id : MemberId} {member : Member}
    (found : architecture.catalog.member? id = some member) :
    member.isStub = architecture.catalog.isStubType member.declaringType ∧
      (member.isStub → options.callPolicy = .stubExternal ∧
        ∃ parameters, member.role = .method { parameters }) := by
  obtain ⟨_, held, mirrors⟩ := build_mirrors built
  have grows := extracted_grows metadata options
  obtain ⟨before, backwards, there, rfl⟩ := mirrors.member?_before found
  rcases grows.member?_before there with ⟨first, firstFound, extended⟩ | added
  · obtain ⟨given, _, names, isMatch⟩ := allocated_member metadata firstFound
    have notStub : before.isStub = false := extended.isStub.trans isMatch.isStub
    have defined := (grows.extends.trans mirrors.extends).defined names.2
    rw [← extended.declaringType] at defined
    exact ⟨notStub.trans defined.isStubType.symm, fun isStub => by simp [notStub] at isStub⟩
  · have onStub := mirrors.extends.isStubType added.onStub
    exact ⟨added.isStub.trans onStub.symm, fun _ => ⟨added.wanted, added.role⟩⟩

theorem built_stubsBare {id : MemberId} {member : Member}
    (found : architecture.catalog.member? id = some member)
    (onStub : architecture.catalog.isStubType member.declaringType) : member.dependencies = #[] := by
  obtain ⟨succeeded, held, mirrors⟩ := build_mirrors built
  have start : StubsBare (allocate {} metadata).2.catalog := by
    intro id onStub
    cases found : (allocate {} metadata).2.catalog.member? id with
    | none => simp [recordedCount, recordedDependencies, found]
    | some member =>
        obtain ⟨given, _, names, _⟩ := allocated_member metadata found
        have stub := onStub found
        rw [names.2.isStubType] at stub
        cases stub
  have bare := stubsBare_extraction.extracted succeeded start
  obtain ⟨before, backwards, there, rfl⟩ := mirrors.member?_before found
  have formed := (extracted_grows metadata options).wellFormed (allocated_wellFormed metadata)
  have counted := bare id fun {member} same => by
    rw [there] at same
    cases same
    rwa [mirrors.extends.isStubType_eq (formed.knowsMember there).declaringType] at onStub
  simpa [recordedCount, recordedDependencies, there] using counted

end Built

end Analysis

open Analysis

/-- A whole analysis makes stubs of what metadata does not define, and of nothing else. The types that
are defined come first, in order of definition, each with the members that its definition lists, less
those whose name is taken by then. Whatever else there is, is a stub. -/
theorem stubs_exactly_undefined {options : Options} {metadata : Metadata}
    {architecture : Architecture}
    (built : (Architecture.build options metadata).1 = .ok architecture) :
    let catalog := architecture.catalog
    (∀ (id : TypeId) (given : String × TypeDefinition),
      metadata.firstTypes[id.index]? = some given →
      ∃ entry, catalog.type? id = some entry ∧ entry.fullName = given.2.fullName ∧
        entry.isStub = false ∧ entry.kind = given.2.kind ∧ entry.visibility = given.2.visibility ∧
        entry.assembly = some given.1 ∧
        List.Forall₂
          (fun definition declared => ∃ member, catalog.member? declared = some member ∧
            Describes id definition member)
          (metadata.firstMembersOf given.2.fullName) entry.members.toList) ∧
    (∀ id entry, catalog.type? id = some entry → metadata.firstTypes.length ≤ id.index →
      entry.isStub ∧ entry.kind = .unknown) ∧
    (∀ id member, catalog.member? id = some member →
      (member.isStub ↔ catalog.isStubType member.declaringType) ∧
      (member.isStub → member.dependencies = #[] ∧ ∃ parameters,
        member.role = .method { form := .unspecified, parameters, hasBody := false })) ∧
    (options.stubExternalCalls = false →
      ∀ id member, catalog.member? id = some member → member.isStub = false) := by
  refine ⟨fun id given listed => ?_, built_stubTypes built, fun id member found => ?_,
    fun unwanted id member found => ?_⟩
  · obtain ⟨entry, _, _, there, extended, final⟩ := built_type? built listed
    have members := built_members built there
    rw [extended.fullName] at members
    exact ⟨_, final, extended.fullName, extended.isStub, extended.kind, extended.visibility,
      extended.assembly, members⟩
  · obtain ⟨same, role⟩ := built_member? built found
    refine ⟨by rw [same], fun isStub => ⟨?_, (role isStub).2⟩⟩
    exact built_stubsBare built found (same ▸ isStub)
  · cases isStub : member.isStub with
    | false => rfl
    | true =>
        have wanted := ((built_member? built found).2 isStub).1
        simp [Options.callPolicy, unwanted] at wanted

theorem stubs_exactly_undefined_ledger :
    ∃ architecture entry stub, (Architecture.build {} ledgerMetadata).1 = .ok architecture ∧
      ledgerMetadata.firstTypes.length = 1 ∧
      architecture.catalog.type? ⟨0⟩ = some entry ∧ entry.isStub = false ∧
      entry.assembly = some "shop" ∧ entry.members.size = 1 ∧
      architecture.catalog.member? ⟨1⟩ = some stub ∧ stub.isStub ∧ stub.dependencies = #[] := by
  obtain ⟨architecture, built, evaluated⟩ : ∃ architecture,
      (Architecture.build {} ledgerMetadata).1 = .ok architecture ∧
        (architecture.catalog.member? ⟨1⟩).any (·.isStub) :=
    build_passes _ (by decide +kernel)
  obtain ⟨stub, found, isStub⟩ := (Option.any_eq_true ..).mp evaluated
  obtain ⟨types, _, members, _⟩ := stubs_exactly_undefined built
  obtain ⟨entry, there, _, defined, _, _, assembly, declared⟩ := types ⟨0⟩ _ rfl
  exact ⟨architecture, entry, stub, built, by decide +kernel, there, defined, assembly,
    declared.length_eq.symm.trans (by decide +kernel), found, isStub,
    ((members ⟨1⟩ stub found).2 isStub).1⟩

end MemberGraph
