import MemberGraph.Proofs.Representation

/-!
Nothing is ever taken out of a catalog. A type or member keeps its id and its names, and its lists
get longer at the end only. What else is known of a type may change once: when a stub becomes a
defined type.
-/

set_option autoImplicit false

namespace MemberGraph

open Catalog

structure TypeEntry.Persists (old new : TypeEntry) : Prop where
  id : new.id = old.id
  fullName : new.fullName = old.fullName
  name : new.name = old.name
  namespaceName : new.namespaceName = old.namespaceName
  members : old.members.toList <+: new.members.toList
  dependencies : old.dependencies.toList <+: new.dependencies.toList
  backwards : old.backwards.toList <+: new.backwards.toList

structure TypeEntry.SameAttributes (old new : TypeEntry) : Prop where
  isStub : new.isStub = old.isStub
  kind : new.kind = old.kind
  visibility : new.visibility = old.visibility
  assembly : new.assembly = old.assembly

/-- A later state of a catalog, in which types for which `promoted` holds may have become defined
ones. -/
structure Catalog.Retains (promoted : TypeId → TypeEntry → Prop) (old new : Catalog) : Prop where
  type? : ∀ {id entry}, old.type? id = some entry →
    ∃ later, new.type? id = some later ∧ entry.Persists later ∧
      (entry.SameAttributes later ∨ promoted id entry)
  member? : ∀ {id member}, old.member? id = some member →
    ∃ later, new.member? id = some later ∧ member.Extends later
  typeNamed? : ∀ {name id}, old.typeNamed? name = some id → new.typeNamed? name = some id
  memberNamed? : ∀ {name id}, old.memberNamed? name = some id → new.memberNamed? name = some id

theorem TypeEntry.Persists.trans {first second third : TypeEntry} (before : first.Persists second)
    (after : second.Persists third) : first.Persists third where
  id := after.id.trans before.id
  fullName := after.fullName.trans before.fullName
  name := after.name.trans before.name
  namespaceName := after.namespaceName.trans before.namespaceName
  members := before.members.trans after.members
  dependencies := before.dependencies.trans after.dependencies
  backwards := before.backwards.trans after.backwards

theorem TypeEntry.SameAttributes.trans {first second third : TypeEntry}
    (before : first.SameAttributes second) (after : second.SameAttributes third) :
    first.SameAttributes third where
  isStub := after.isStub.trans before.isStub
  kind := after.kind.trans before.kind
  visibility := after.visibility.trans before.visibility
  assembly := after.assembly.trans before.assembly

theorem TypeEntry.Extends.persists {old new : TypeEntry} (extended : old.Extends new) :
    old.Persists new where
  id := extended.id
  fullName := extended.fullName
  name := extended.name
  namespaceName := extended.namespaceName
  members := extended.members
  dependencies := extended.dependencies
  backwards := extended.backwards

theorem TypeEntry.Extends.sameAttributes {old new : TypeEntry} (extended : old.Extends new) :
    old.SameAttributes new :=
  ⟨extended.isStub, extended.kind, extended.visibility, extended.assembly⟩

theorem TypeEntry.persists_promote (reference : TypeReference) (kind : TypeKind)
    (visibility : Visibility) (entry : TypeEntry) :
    entry.Persists (promote reference kind visibility entry) := by
  unfold promote
  split
  · exact ⟨rfl, rfl, rfl, rfl, List.prefix_rfl, List.prefix_rfl, List.prefix_rfl⟩
  · exact (TypeEntry.Extends.refl entry).persists

namespace Catalog

variable {old new catalog : Catalog} {promoted : TypeId → TypeEntry → Prop}

theorem Extends.retains (extended : old.Extends new) : old.Retains promoted new where
  type? found := by
    obtain ⟨later, there, entryExtended⟩ := extended.type? found
    exact ⟨later, there, entryExtended.persists, .inl entryExtended.sameAttributes⟩
  member? := extended.member?
  typeNamed? := extended.typeNamed?
  memberNamed? := extended.memberNamed?

theorem Retains.mono {wider : TypeId → TypeEntry → Prop} (retained : old.Retains promoted new)
    (implied : ∀ {id entry}, old.type? id = some entry → promoted id entry → wider id entry) :
    old.Retains wider new where
  type? found := by
    obtain ⟨later, there, persists, attributes⟩ := retained.type? found
    exact ⟨later, there, persists, attributes.imp_right (implied found)⟩
  member? := retained.member?
  typeNamed? := retained.typeNamed?
  memberNamed? := retained.memberNamed?

theorem Retains.trans {first second third : Catalog}
    (before : first.Retains (fun _ entry => entry.isStub) second)
    (after : second.Retains (fun _ entry => entry.isStub) third) :
    first.Retains (fun _ entry => entry.isStub) third where
  type? found := by
    obtain ⟨middle, there, persists, attributes⟩ := before.type? found
    obtain ⟨last, lastThere, persistsAgain, attributesAgain⟩ := after.type? there
    refine ⟨last, lastThere, persists.trans persistsAgain, ?_⟩
    rcases attributes with same | promoted
    · rcases attributesAgain with sameAgain | promoted
      · exact .inl (same.trans sameAgain)
      · exact .inr (same.isStub ▸ promoted)
    · exact .inr promoted
  member? found := by
    obtain ⟨middle, there, extended⟩ := before.member? found
    obtain ⟨last, lastThere, extendedAgain⟩ := after.member? there
    exact ⟨last, lastThere, extended.trans extendedAgain⟩
  typeNamed? named := after.typeNamed? (before.typeNamed? named)
  memberNamed? named := after.memberNamed? (before.memberNamed? named)

theorem retains_defineType (reference : TypeReference) (kind : TypeKind) (visibility : Visibility) :
    catalog.Retains
      (fun id entry => catalog.typeNamed? reference.fullName = some id ∧ entry.isStub)
      (catalog.defineType reference kind visibility).2 := by
  unfold defineType
  split
  · next known named =>
      refine ⟨fun {id entry} found => ?_, fun found => ⟨_, found, .refl _⟩, fun there => there,
        fun there => there⟩
      by_cases same : known = id
      · subst same
        refine ⟨promote reference kind visibility entry, by simp [type?_updateType, found],
          entry.persists_promote reference kind visibility, ?_⟩
        cases isStub : entry.isStub with
        | true => exact .inr ⟨named, rfl⟩
        | false =>
            refine .inl ?_
            simp only [promote, isStub]
            exact (TypeEntry.Extends.refl entry).sameAttributes
      · exact ⟨entry, by simp [type?_updateType, same, found],
          (TypeEntry.Extends.refl entry).persists, .inl (TypeEntry.Extends.refl entry).sameAttributes⟩
  · next fresh => exact (extends_addType kind visibility false fresh).retains

theorem extends_linkBackwards : catalog.Extends catalog.linkBackwards.2 :=
  linkBackwards_induction (fun _ _ before => before.trans (extends_addBackwards _ _))
    (fun _ before => before.trans (extends_addTypeDependency _)) (.refl _)

theorem Change.retains {policy : CallPolicy} (change : Change policy old new) :
    old.Retains (fun _ entry => entry.isStub) new := by
  cases change with
  | growth growth => exact growth.extends.retains
  | define reference kind visibility =>
      exact (retains_defineType reference kind visibility).mono fun _ promoted => promoted.2
  | insert insertable unlinked => exact (extends_addMember _ _).retains
  | record known => exact (extends_addDependencies _ _).retains
  | recordBackwards known => exact (extends_addBackwards _ _).retains
  | recordBetween known => exact (extends_addTypeDependency _).retains

theorem Changes.retains {policy : CallPolicy} (changes : Changes policy old new) :
    old.Retains (fun _ entry => entry.isStub) new := by
  induction changes with
  | refl => exact (Extends.refl _).retains
  | tail _ change before => exact before.trans change.retains

end Catalog

def Step.Promotes (step : Step) (entry : TypeEntry) : Prop :=
  entry.isStub ∧ ∃ reference kind visibility,
    step = .defineType reference kind visibility ∧ reference.fullName = entry.fullName

theorem Step.Effect.retains {catalog later : Catalog} {step : Step}
    (effect : step.Effect catalog later) :
    catalog.Retains (fun id entry => entry.isStub ∧ ∃ reference kind visibility,
      step = .defineType reference kind visibility ∧
        catalog.typeNamed? reference.fullName = some id) later := by
  cases effect with
  | grown grows => exact grows.extends.retains
  | defined reference kind visibility =>
      exact (retains_defineType reference kind visibility).mono fun _ promoted =>
        ⟨promoted.2, reference, kind, visibility, rfl, promoted.1⟩
  | stubbed grows declared returnKnown parametersKnown =>
      exact (grows.extends.trans (extends_addMember _ _)).retains
  | inserted declared => exact (extends_addMember _ _).retains
  | recorded id dependencies => exact (extends_addDependencies id dependencies).retains
  | recordedBackwards id dependency => exact (extends_addBackwards id dependency).retains
  | recordedBetween dependency => exact (extends_addTypeDependency dependency).retains
  | linked property field => exact (extends_linkBacking property field).retains
  | turnedAround => exact extends_linkBackwards.retains

/-- One operation on a catalog: any step of a session, or adding any member that has the id it is
given. -/
inductive Operation (catalog : Catalog) : Catalog → Prop where
  | step (step : Step) : Operation catalog (step.apply catalog).2
  | insert (key : String) (make : MemberId → Member)
      (own : (make ⟨catalog.members.size⟩).id = ⟨catalog.members.size⟩) :
      Operation catalog (catalog.addMember key make).2

/-- What look-ups rely on outlasts steps that name ids out of range, so a run may hold those too. -/
theorem Operation.retains {old new : Catalog} (operation : Operation old new) (sound : old.Sound) :
    old.Retains (fun _ entry => entry.isStub) new ∧ new.Sound := by
  cases operation with
  | step step =>
      have effect := step.effect sound
      exact ⟨effect.retains.mono fun _ promoted => promoted.1, effect.sound sound⟩
  | insert key make own => exact ⟨(extends_addMember key make).retains, sound.addMember own⟩

theorem Operation.run_retains {old new : Catalog} (run : Relation.ReflTransGen Operation old new)
    (sound : old.Sound) : old.Retains (fun _ entry => entry.isStub) new ∧ new.Sound := by
  induction run with
  | refl => exact ⟨(Extends.refl _).retains, sound⟩
  | tail _ operation before =>
      obtain ⟨retained, soundBefore⟩ := before
      obtain ⟨retainedNext, soundAfter⟩ := operation.retains soundBefore
      exact ⟨retained.trans retainedNext, soundAfter⟩

theorem Analysis.build_retains {analysis : Analysis} (formed : analysis.catalog.WellFormed)
    (options : Options) (metadata : Metadata) :
    analysis.catalog.Retains (fun _ entry => entry.isStub)
      (analysis.build options metadata).2.catalog := by
  have allocated : Changes options.callPolicy analysis.catalog
      (analysis.allocate metadata).2.catalog := allocate_changes formed metadata
  have extracted : (analysis.allocate metadata).2.catalog.Extends
      ((analysis.allocate metadata).2.extractAll options (analysis.allocate metadata).1).2.catalog := by
    rw [extractAll_catalog]
    exact (extractTypes_grows (allocated.wellFormed formed).sound _).extends
  refine allocated.retains.trans ?_
  unfold Analysis.build
  dsimp only
  split
  · next failed => rw [failed] at extracted; exact extracted.retains
  · next succeeded =>
      rw [succeeded] at extracted
      dsimp only [turnAround]
      split
      · exact (extracted.trans extends_linkBackwards).retains
      · exact extracted.retains

/-- A well-formed catalog loses nothing to any step, failing ones included, nor to an added member
or a whole analysis. So what is known at one time of a run of operations is so ever after: the ids,
and which type or member has a name. -/
theorem catalog_appendOnly {catalog : Catalog} (formed : catalog.WellFormed) :
    (∀ step : Step,
      catalog.Retains (fun _ entry => step.Promotes entry) (step.apply catalog).2) ∧
    (∀ (key : String) (make : MemberId → Member), catalog.Extends (catalog.addMember key make).2) ∧
    (∀ (options : Options) (metadata : Metadata) (journal : Journal),
      catalog.Retains (fun _ entry => entry.isStub)
        ((⟨catalog, journal⟩ : Analysis).build options metadata).2.catalog) ∧
    ∀ middle later : Catalog, Relation.ReflTransGen Operation catalog middle →
      Relation.ReflTransGen Operation middle later →
      middle.Retains (fun _ entry => entry.isStub) later := by
  refine ⟨fun step => ?_, fun key make => extends_addMember key make,
    fun options metadata journal => ?_, fun middle later before after => ?_⟩
  · refine (step.effect formed.sound).retains.mono fun found promoted => ?_
    obtain ⟨isStub, reference, kind, visibility, same, named⟩ := promoted
    obtain ⟨entry, there, fullName⟩ := formed.typeNamed?_iff.mp named
    rw [there] at found
    cases found
    exact ⟨isStub, reference, kind, visibility, same, fullName.symm⟩
  · have formedStart : (⟨catalog, journal⟩ : Analysis).catalog.WellFormed := formed
    exact Analysis.build_retains formedStart options metadata
  · exact (Operation.run_retains after (Operation.run_retains before formed.sound).2).1

theorem catalog_appendOnly_order :
    let catalog := (Analysis.allocate {} orderMetadata).2.catalog
    let step : Step := .defineType { fullName := "Shop.Money" } .structType .pub
    catalog.WellFormed ∧ (catalog.type? ⟨1⟩).any (·.isStub) ∧
      ((step.apply catalog).2.type? ⟨1⟩).any (!·.isStub) ∧
      catalog.Retains (fun _ entry => step.Promotes entry) (step.apply catalog).2 := by
  intro catalog step
  have changes : Changes .existingOnly ({} : Analysis).catalog catalog :=
    Analysis.allocated_changes orderMetadata
  have formed := changes.wellFormed wellFormed_empty
  exact ⟨formed, by decide +kernel, by decide +kernel, (catalog_appendOnly formed).1 step⟩

end MemberGraph
