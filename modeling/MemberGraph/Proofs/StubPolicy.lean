import MemberGraph.Proofs.NamedRun
import MemberGraph.Proofs.Failure

/-!
What the policy for calls decides. An extraction that makes no stubs of methods visits the same
methods, finds the same properties and links the same fields; it leaves out calls and nothing else.
-/

set_option autoImplicit false

namespace MemberGraph

open Analysis

/-! ## Fewer calls -/

/-- Some of the edges in the same order, and all of those that are no calls. -/
structure NamedEdge.Thins (fewer edges : List NamedEdge) : Prop where
  sublist : fewer.Sublist edges
  others : fewer.filter (·.kind ≠ .call) = edges.filter (·.kind ≠ .call)

namespace NamedEdge.Thins

variable {fewer edges others furtherFewer : List NamedEdge}

theorem refl (edges : List NamedEdge) : Thins edges edges := ⟨.refl edges, rfl⟩

theorem append (first : Thins fewer edges) (second : Thins furtherFewer others) :
    Thins (fewer ++ furtherFewer) (edges ++ others) where
  sublist := first.sublist.append second.sublist
  others := by simp only [List.filter_append, first.others, second.others]

end NamedEdge.Thins

structure Statistics.Lessens (fewer counts : Statistics) : Prop where
  others : { fewer with callDependencies := 0, unresolvedCalls := 0, backingFieldCalls := 0 } =
    { counts with callDependencies := 0, unresolvedCalls := 0, backingFieldCalls := 0 }
  operands : fewer.callDependencies + fewer.unresolvedCalls =
    counts.callDependencies + counts.unresolvedCalls
  callDependencies : fewer.callDependencies ≤ counts.callDependencies
  backingFieldCalls : fewer.backingFieldCalls ≤ counts.backingFieldCalls

namespace Statistics.Lessens

theorem refl (counts : Statistics) : Lessens counts counts := ⟨rfl, rfl, le_rfl, le_rfl⟩

theorem merge {fewer counts furtherFewer others : Statistics} (first : Lessens fewer counts)
    (second : Lessens furtherFewer others) :
    Lessens (fewer.merge furtherFewer) (counts.merge others) := by
  obtain ⟨same, operands, calls, stored⟩ := first
  obtain ⟨sameToo, operandsToo, callsToo, storedToo⟩ := second
  simp only [Statistics.mk.injEq] at same sameToo
  constructor
  · simp only [Statistics.merge, same, sameToo]
  · simp only [Statistics.merge]
    omega
  · exact Nat.add_le_add calls callsToo
  · exact Nat.add_le_add stored storedToo

end Statistics.Lessens

structure Yield.Thins (fewer yield : Yield) : Prop where
  edges : ∀ holder, NamedEdge.Thins (fewer.log.edgesOf holder) (yield.log.edgesOf holder)
  statistics : fewer.statistics.Lessens yield.statistics
  types : fewer.types = yield.types

namespace Yield.Thins

theorem refl (yield : Yield) : Thins yield yield := ⟨fun _ => .refl _, .refl _, rfl⟩

theorem append {fewer yield furtherFewer others : Yield} (first : Thins fewer yield)
    (second : Thins furtherFewer others) :
    Thins (fewer.append furtherFewer) (yield.append others) where
  edges holder := by
    simp only [Yield.append, EdgeLog.edgesOf_append]
    exact (first.edges holder).append (second.edges holder)
  statistics := first.statistics.merge second.statistics
  types := by simp only [Yield.append, first.types, second.types]

end Yield.Thins

theorem EdgeLog.thins_to {fewer edges : List NamedEdge} (thins : NamedEdge.Thins fewer edges)
    (holder name : String) :
    NamedEdge.Thins ((EdgeLog.to holder fewer).edgesOf name)
      ((EdgeLog.to holder edges).edgesOf name) := by
  rw [edgesOf_to, edgesOf_to]
  split
  · exact thins
  · exact .refl []

namespace Outline

def resolving (outline : Outline) (resolves : MethodReference → Bool) : Outline :=
  { outline with resolves }

section Thinning

variable {outline : Outline} {resolves : MethodReference → Bool}
  (wider : ∀ reference, outline.resolves reference → resolves reference)
include wider

theorem calls_thins (origin : String) (references : List MethodReference) :
    NamedEdge.Thins (outline.calls origin references)
      ((outline.resolving resolves).calls origin references) where
  sublist := (List.monotone_filter_right references wider).map _
  others := by simp [calls, List.filter_map, Function.comp_def]

private theorem attach_thins (call : MethodReference × FieldReference) :
    (outline.attach call).Thins ((outline.resolving resolves).attach call) := by
  have same : (outline.resolving resolves).implemented? .field call.2.name call.2.fullName =
      outline.implemented? .field call.2.name call.2.fullName := rfl
  unfold attach
  rw [same]
  cases outline.implemented? .field call.2.name call.2.fullName with
  | none => exact .refl _
  | some property =>
      refine ⟨EdgeLog.thins_to (calls_thins wider _ _) _, ⟨rfl, rfl, le_rfl, ?_⟩, rfl⟩
      exact Bool.toNat_le_toNat (wider call.1)

private theorem attachAll_thins (calls : List (MethodReference × FieldReference)) :
    (outline.attachAll calls).Thins ((outline.resolving resolves).attachAll calls) := by
  induction calls with
  | nil => exact .refl _
  | cons call rest ih => exact (attach_thins wider call).append ih

private theorem tie_thins (storage : Storage) (method : MethodDefinition) (body : MethodBody)
    (property : PropertyOutline) :
    (outline.tie storage method body property).Thins
      ((outline.resolving resolves).tie storage method body property) := by
  have thins := (calls_thins wider property.fullName (calledMethods body)).append
    (.refl (outline.inherited (outline.store storage property.fullName body) property.fullName))
  refine ⟨fun holder => ?_, .refl _, rfl⟩
  simp only [tie, EdgeLog.edgesOf_append]
  exact (EdgeLog.thins_to thins _ holder).append (EdgeLog.thins_to thins _ holder)

private theorem scanned_thins (references : List MethodReference) (types : List String) :
    Yield.Thins
      { statistics :=
          { callDependencies := references.countP outline.resolves
            unresolvedCalls := references.countP (!outline.resolves ·) }
        types }
      { statistics :=
          { callDependencies := references.countP resolves
            unresolvedCalls := references.countP (!resolves ·) }
        types } := by
  have total : ∀ leads : MethodReference → Bool,
      references.countP leads + references.countP (!leads ·) = references.length := by
    intro leads
    rw [List.length_eq_countP_add_countP leads]
    simp
  refine ⟨fun _ => .refl _, ⟨rfl, (total _).trans (total _).symm, ?_, le_rfl⟩, rfl⟩
  exact List.countP_mono_left fun reference _ => wider reference

private theorem given_thins (storage : Storage) (method : MethodDefinition) :
    (outline.given storage method).Thins ((outline.resolving resolves).given storage method) := by
  unfold given
  cases method.body with
  | none => exact .refl _
  | some body =>
      dsimp only
      split
      · have same : (outline.resolving resolves).tied? method = outline.tied? method := rfl
        rw [same]
        cases outline.tied? method with
        | none => exact .refl _
        | some property => exact tie_thins wider storage method body property
      · exact (attachAll_thins wider _).append (scanned_thins wider _ _)

private theorem yield_thins (storage : Storage) (method : MethodDefinition) :
    (outline.yield storage method).Thins ((outline.resolving resolves).yield storage method) := by
  have same : (outline.resolving resolves).declares = outline.declares := rfl
  unfold yield
  rw [same]
  split
  · refine (given_thins wider storage method).append
      ⟨fun holder => EdgeLog.thins_to ?_ _ holder, .refl _, rfl⟩
    exact (NamedEdge.Thins.refl _).append (calls_thins wider _ _)
  · exact .refl _

end Thinning

end Outline

/-! ## Runs under both policies -/

private theorem Catalog.resolvable_stubExternal {catalog : Catalog} (reference : MethodReference)
    (existing : catalog.resolvable .existingOnly reference) :
    catalog.resolvable .stubExternal reference := by
  unfold Catalog.resolvable at existing ⊢
  cases named : catalog.typeNamed? reference.declaringType.fullName with
  | none => simp [named] at existing
  | some on =>
      simp only [named, Bool.or_eq_true] at existing ⊢
      exact existing.imp_right fun stub => by simp at stub

section Runs

variable (catalog : Catalog)

theorem runYield_thins (storage : Storage) (visited : List (TypeId × MethodDefinition)) :
    (runYield storage (outlines catalog .existingOnly visited)).Thins
      (runYield storage (outlines catalog .stubExternal visited)) := by
  induction visited generalizing storage with
  | nil => exact .refl _
  | cons one rest ih =>
      refine Yield.Thins.append ?_ (ih _)
      exact Outline.yield_thins Catalog.resolvable_stubExternal storage one.2

/-- Which fields store which properties does not depend on the policy. -/
theorem runStorage_outlines (storage : Storage) (visited : List (TypeId × MethodDefinition)) :
    runStorage storage (outlines catalog .existingOnly visited) =
      runStorage storage (outlines catalog .stubExternal visited) := by
  induction visited generalizing storage with
  | nil => rfl
  | cons one rest ih => exact ih _

end Runs

/-! ## Defined types and members -/

theorem Member.role_eq {first second : Member}
    (apart : first.role.withoutBacking = second.role.withoutBacking)
    (backing : first.property?.bind (·.backingField) = second.property?.bind (·.backingField))
    (backed : first.backedProperty? = second.backedProperty?) : first.role = second.role := by
  obtain ⟨_, _, _, _, _, _, _, role, _, _⟩ := first
  obtain ⟨_, _, _, _, _, _, _, other, _, _⟩ := second
  cases role with
  | method traits =>
      cases other with
      | method others => exact apart
      | field => cases apart
      | property => cases apart
  | field property =>
      cases other with
      | method => cases apart
      | field others => exact congrArg MemberRole.field backed
      | property => cases apart
  | property links =>
      cases other with
      | method => cases apart
      | field => cases apart
      | property others =>
          obtain ⟨getter, setter, field⟩ := links
          obtain ⟨getterToo, setterToo, fieldToo⟩ := others
          cases apart
          cases (show field = fieldToo from backing)
          rfl

namespace Catalog

/-- The type at an id without the dependencies between types, unless it is a stub. -/
def definedType? (catalog : Catalog) (id : TypeId) : Option TypeEntry :=
  ((catalog.type? id).filter (!·.isStub)).map fun entry =>
    { entry with dependencies := #[], backwards := #[] }

def definedMember? (catalog : Catalog) (id : MemberId) : Option Member :=
  ((catalog.member? id).filter (!·.isStub)).map fun member =>
    { member with dependencies := #[], backwards := #[] }

section Defined

variable {policy policyToo : CallPolicy} {start old new other : Catalog}

theorem Grows.definedType? (grows : Grows policy old new) (id : TypeId) :
    new.definedType? id = old.definedType? id := by
  unfold Catalog.definedType?
  congr 1
  cases after : new.type? id with
  | none =>
      cases before : old.type? id with
      | none => rfl
      | some entry =>
          obtain ⟨later, there, _⟩ := (Grows.extends grows).type? before
          rw [after] at there
          cases there
  | some later =>
      cases isStub : later.isStub with
      | false =>
          rcases grows.type?_before after with ⟨entry, before, extended⟩ | stub
          · have defined : entry.isStub = false := by rw [← extended.isStub, isStub]
            rw [before, ← grows.type?_of_defined before defined, after]
          · rw [isStub] at stub
            cases stub
      | true =>
          cases before : old.type? id with
          | none => simp [Option.filter, isStub]
          | some entry =>
              obtain ⟨same, there, extended⟩ := (Grows.extends grows).type? before
              rw [after] at there
              cases there
              simp [Option.filter, isStub, ← extended.isStub]

theorem Mirrors.definedType? {held : List (TypeId × Dependency)} (mirrors : old.Mirrors held new)
    (id : TypeId) : new.definedType? id = old.definedType? id := by
  unfold Catalog.definedType?
  rw [mirrors.type?]
  cases old.type? id with
  | none => rfl
  | some entry => cases isStub : entry.isStub <;> simp [Option.filter, isStub]

theorem Mirrors.definedMember? {held : List (TypeId × Dependency)} (mirrors : old.Mirrors held new)
    (id : MemberId) : new.definedMember? id = old.definedMember? id := by
  unfold Catalog.definedMember?
  rw [mirrors.member?]
  cases old.member? id with
  | none => rfl
  | some member => cases isStub : member.isStub <;> simp [Option.filter, isStub]

section Links

variable (formed : start.WellFormed) (grows : Grows policy start new)
  (growsToo : Grows policyToo start other) (paired : start.Paired)
  (same : new.storage = other.storage)
include formed grows growsToo paired same

theorem backingField?_of_storage_eq {property field : MemberId}
    (stored : new.backingField? property = some field) :
    other.backingField? property = some field := by
  have relinked : Relinkings False start new := grows.relinkings
  have formedNew := Grows.wellFormed grows formed
  have formedToo := Grows.wellFormed growsToo formed
  obtain ⟨owner, links, found, isProperty, _⟩ := backingField?_eq_some_iff.mp stored
  obtain ⟨storing, fieldFound, isField⟩ := (relinked.paired paired).field stored
  have named : new.storage owner.fullName = some storing.fullName := by
    rw [storage_eq formedNew found, stored]
    simp [memberName?, fieldFound]
  obtain ⟨field, atStart, extended, _⟩ := grows.field_before fieldFound isField
  obtain ⟨fieldToo, fieldThere, extendedToo⟩ := (Grows.extends growsToo).member? atStart
  rcases grows.member?_before found with ⟨before, ownerAtStart, ownerExtended⟩ | added
  · obtain ⟨ownerToo, there, ownerExtendedToo⟩ := (Grows.extends growsToo).member? ownerAtStart
    refine backingField?_of_storage formedToo there fieldThere ?_
    rw [ownerExtendedToo.fullName, extendedToo.fullName, ← ownerExtended.fullName,
      ← extended.fullName, ← same, named]
  · have notProperty := Member.isProperty_of_isMethod added.isMethod
    simp [Member.isProperty, isProperty] at notProperty

theorem backedProperty?_of_storage_eq {property field : MemberId}
    (backs : new.backedProperty? field = some property) :
    other.backedProperty? field = some property := by
  have relinked : Relinkings False start new := grows.relinkings
  have relinkedToo : Relinkings False start other := growsToo.relinkings
  have stored := (relinked.paired paired property field).mpr backs
  exact (relinkedToo.paired paired property field).mp
    (backingField?_of_storage_eq formed grows growsToo paired same stored)

theorem definedMember?_of_storage_eq {id : MemberId} {member : Member}
    (found : new.member? id = some member) (defined : member.isStub = false) :
    ∃ dependencies backwards,
      other.member? id = some { member with dependencies, backwards } := by
  rcases grows.member?_before found with ⟨before, atStart, extended⟩ | added
  · obtain ⟨later, there, extendedToo⟩ := (Grows.extends growsToo).member? atStart
    refine ⟨later.dependencies, later.backwards, there.trans (congrArg some ?_)⟩
    have backing : new.backingField? id = other.backingField? id := by
      apply Option.ext
      intro field
      exact ⟨backingField?_of_storage_eq formed grows growsToo paired same,
        backingField?_of_storage_eq formed growsToo grows paired same.symm⟩
    have backed : new.backedProperty? id = other.backedProperty? id := by
      apply Option.ext
      intro property
      exact ⟨backedProperty?_of_storage_eq formed grows growsToo paired same,
        backedProperty?_of_storage_eq formed growsToo grows paired same.symm⟩
    have role : member.role = later.role := by
      refine Member.role_eq (extended.role.trans extendedToo.role.symm) ?_ ?_
      · simpa [backingField?, linksOf?, found, there] using backing
      · simpa [Catalog.backedProperty?, found, there] using backed
    obtain ⟨_, _, _, _, _, _, _, _, _, _⟩ := later
    simp only [Member.mk.injEq]
    exact ⟨by rw [extended.id, ← extendedToo.id], by rw [extended.declaringType, ← extendedToo.declaringType],
      by rw [extended.name, ← extendedToo.name], by rw [extended.fullName, ← extendedToo.fullName],
      by rw [extended.memberType, ← extendedToo.memberType],
      by rw [extended.visibility, ← extendedToo.visibility],
      by rw [extended.isStub, ← extendedToo.isStub], role.symm, trivial, trivial⟩
  · rw [added.isStub] at defined
    cases defined

end Links

/-- Two runs from one start that leave the same storage leave the same defined members. -/
theorem definedMember?_eq (formed : start.WellFormed) (paired : start.Paired)
    (grows : Grows policy start new) (growsToo : Grows policyToo start other)
    (same : new.storage = other.storage) (id : MemberId) :
    new.definedMember? id = other.definedMember? id := by
  have into : ∀ {policy policyToo : CallPolicy} {new other : Catalog}, Grows policy start new →
      Grows policyToo start other → new.storage = other.storage → ∀ {shown},
        new.definedMember? id = some shown → other.definedMember? id = some shown := by
    intro policy policyToo new other grows growsToo same shown defined
    obtain ⟨member, kept, rfl⟩ := Option.map_eq_some_iff.mp defined
    obtain ⟨found, notStub⟩ := Option.filter_eq_some_iff.mp kept
    obtain ⟨dependencies, backwards, there⟩ := definedMember?_of_storage_eq formed grows growsToo
      paired same found (by simpa using notStub)
    simp only [Catalog.definedMember?, there, Option.filter, notStub, if_true, Option.map_some]
  exact Option.ext fun shown => ⟨into grows growsToo same, into growsToo grows same.symm⟩

end Defined

end Catalog

/-! ## Builds under both policies -/

/-- An architecture that has what another has, but for some calls and what only they lead to. -/
structure Architecture.Thins (fewer full : Architecture) : Prop where
  types : ∀ id, fewer.catalog.definedType? id = full.catalog.definedType? id
  members : ∀ id, fewer.catalog.definedMember? id = full.catalog.definedMember? id
  edges : ∀ id member, full.catalog.member? id = some member → member.isStub = false →
    ∃ less more, fewer.catalog.Spells (recordedDependencies fewer.catalog id) less ∧
      full.catalog.Spells (recordedDependencies full.catalog id) more ∧
      NamedEdge.Thins less more
  typeNames : ∀ id entry, fewer.catalog.type? id = some entry →
    ∃ other same, full.catalog.type? other = some same ∧ same.fullName = entry.fullName
  statistics : fewer.statistics.Lessens full.statistics

section Built

variable {metadata : Metadata} {options stubbing : Options} {fewer full : Architecture}
  (existing : options.callPolicy = .existingOnly) (external : stubbing.callPolicy = .stubExternal)
  (built : (Architecture.build options metadata).1 = .ok fewer)
  (builtToo : (Architecture.build stubbing metadata).1 = .ok full)
include existing external built builtToo

theorem built_thins_definedMember? (id : MemberId) :
    fewer.catalog.definedMember? id = full.catalog.definedMember? id := by
  obtain ⟨followed, held, mirrors⟩ := built_follows built
  obtain ⟨followedToo, heldToo, mirrorsToo⟩ := built_follows builtToo
  rw [mirrors.definedMember?, mirrorsToo.definedMember?]
  refine Catalog.definedMember?_eq (allocated_wellFormed metadata) (allocated_paired metadata)
    followed.yields.grows followedToo.yields.grows ?_ id
  rw [followed.storage, followedToo.storage, existing, external, runStorage_outlines]

theorem built_thins_edges {id : MemberId} {member : Member}
    (found : full.catalog.member? id = some member) (defined : member.isStub = false) :
    ∃ less more, fewer.catalog.Spells (recordedDependencies fewer.catalog id) less ∧
      full.catalog.Spells (recordedDependencies full.catalog id) more ∧
      NamedEdge.Thins less more := by
  obtain ⟨start, atStart, _⟩ := built_loaded builtToo found defined
  refine ⟨_, _, built_spelled built atStart, built_spelled builtToo atStart,
    (NamedEdge.Thins.refl _).append ?_⟩
  rw [existing, external]
  exact (runYield_thins _ _ _).edges start.fullName

theorem built_thins_typeNames {id : TypeId} {entry : TypeEntry}
    (found : fewer.catalog.type? id = some entry) :
    ∃ other same, full.catalog.type? other = some same ∧ same.fullName = entry.fullName := by
  obtain ⟨followed, held, mirrors⟩ := built_follows built
  obtain ⟨followedToo, heldToo, mirrorsToo⟩ := built_follows builtToo
  have formed := Catalog.Grows.wellFormed followed.yields.grows (allocated_wellFormed metadata)
  have formedToo := Catalog.Grows.wellFormed followedToo.yields.grows (allocated_wellFormed metadata)
  obtain ⟨before, _, _, there, rfl⟩ := mirrors.type?_before found
  have named := formed.typeNamed?_iff.mpr ⟨before, there, rfl⟩
  -- The type was loaded, or it was looked up, and both runs look up the same types.
  obtain ⟨other, occurs⟩ : ∃ other,
      ((allocate {} metadata).2.extractTypes stubbing (allocate {} metadata).1).2.catalog.typeNamed?
        before.fullName = some other := by
    rcases followed.yields.nothingElse existing (Option.isSome_of_eq_some named) with
      atStart | mentioned
    · obtain ⟨other, atStart⟩ := Option.isSome_iff_exists.mp atStart
      exact ⟨other, followedToo.yields.grows.extends.typeNamed? atStart⟩
    · apply Option.isSome_iff_exists.mp
      refine followedToo.yields.mentioned _ ?_
      rw [external, ← (runYield_thins _ _ _).types, ← existing]
      exact mentioned
  obtain ⟨same, thereToo, fullName⟩ := formedToo.typeNamed?_iff.mp occurs
  obtain ⟨later, laterFound, extended⟩ := mirrorsToo.extends.type? thereToo
  exact ⟨other, later, laterFound, extended.fullName.trans fullName⟩

theorem built_thins : fewer.Thins full where
  types id := by
    obtain ⟨_, held, mirrors⟩ := built_follows built
    obtain ⟨_, heldToo, mirrorsToo⟩ := built_follows builtToo
    rw [mirrors.definedType?, mirrorsToo.definedType?, (extracted_grows metadata _).definedType?,
      (extracted_grows metadata _).definedType?]
  members := built_thins_definedMember? existing external built builtToo
  edges _ _ := built_thins_edges existing external built builtToo
  typeNames _ _ := built_thins_typeNames existing external built builtToo
  statistics := by
    rw [(built_follows built).1.statistics, (built_follows builtToo).1.statistics, existing,
      external]
    exact (runYield_thins _ _ _).statistics

end Built

/-- Without stubs for calls, an analysis succeeds for the same metadata, and then it gives the same
architecture with fewer calls. -/
theorem unstubbed_build_thins (metadata : Metadata) (linkBackwards : Bool) :
    let stubbed := (Architecture.build { stubExternalCalls := true, linkBackwards } metadata).1
    let unstubbed := (Architecture.build { stubExternalCalls := false, linkBackwards } metadata).1
    (stubbed.isOk ↔ unstubbed.isOk) ∧
      ∀ full fewer, stubbed = .ok full → unstubbed = .ok fewer → fewer.Thins full := by
  refine ⟨?_, fun full fewer builtToo built => built_thins rfl rfl built builtToo⟩
  rw [build_isOk_iff, build_isOk_iff]

theorem unstubbed_build_thins_ledger :
    ∃ full fewer, (Architecture.build {} ledgerMetadata).1 = .ok full ∧
      (Architecture.build { stubExternalCalls := false } ledgerMetadata).1 = .ok fewer ∧
      fewer.Thins full ∧
      (recordedDependencies full.catalog ⟨0⟩).length = 11 ∧
      (recordedDependencies fewer.catalog ⟨0⟩).length = 10 ∧
      full.statistics.callDependencies = 2 ∧ fewer.statistics.callDependencies = 1 := by
  obtain ⟨full, built, evaluated⟩ := @build_passes {} ledgerMetadata
    (fun full => (recordedDependencies full.catalog ⟨0⟩).length = 11 &&
      full.statistics.callDependencies = 2) (by decide +kernel)
  obtain ⟨fewer, builtToo, evaluatedToo⟩ := @build_passes { stubExternalCalls := false } ledgerMetadata
    (fun fewer => (recordedDependencies fewer.catalog ⟨0⟩).length = 10 &&
      fewer.statistics.callDependencies = 1) (by decide +kernel)
  simp only [Bool.and_eq_true, decide_eq_true_eq] at evaluated evaluatedToo
  exact ⟨full, fewer, built, builtToo,
    (unstubbed_build_thins ledgerMetadata true).2 full fewer built builtToo, evaluated.1,
    evaluatedToo.1, evaluated.2, evaluatedToo.2⟩

end MemberGraph
