import MemberGraph.Proofs.Loading
import MemberGraph.Session

/-!
What a step of a session can do to a catalog. Most steps only look; the others either grow the
catalog as an extraction does or make one change that the step names.
-/

set_option autoImplicit false

namespace MemberGraph

open Catalog

def Step.newMember (on : TypeId) (name fullName : String) (memberType : TypeId)
    (visibility : Visibility) (isStub : Bool) (role : MemberRole) (id : MemberId) : Member :=
  { id, declaringType := on, name, fullName, memberType, visibility, isStub, role }

/-- The possible outcomes of a step for a catalog. -/
inductive Step.Effect (catalog : Catalog) : Step → Catalog → Prop where
  | grown {step : Step} {policy : CallPolicy} {later : Catalog}
      (grows : Grows policy catalog later) : Effect catalog step later
  | defined (reference : TypeReference) (kind : TypeKind) (visibility : Visibility) :
      Effect catalog (.defineType reference kind visibility)
        (catalog.defineType reference kind visibility).2
  | stubbed {on returnType : TypeId} {parameters : List TypeId} {reference : MethodReference}
      {policy : CallPolicy} {typed : Catalog} (grows : Grows policy catalog typed)
      (declared : typed.memberNamed? reference.fullName = none → typed.hasType on)
      (returnKnown : typed.hasType returnType)
      (parametersKnown : ∀ id ∈ parameters, typed.hasType id) :
      Effect catalog (.methodFor on reference)
        (typed.addMember reference.fullName
          (Analysis.stubMethod reference on returnType parameters)).2
  | inserted {key name fullName : String} {on memberType : TypeId} {visibility : Visibility}
      {isStub : Bool} {role : MemberRole}
      (declared : catalog.memberNamed? key = none → catalog.hasType on) :
      Effect catalog (.addMember key on name fullName memberType visibility isStub role)
        (catalog.addMember key
          (Step.newMember on name fullName memberType visibility isStub role)).2
  | recorded (id : MemberId) (dependencies : List Dependency) :
      Effect catalog (.addDependencies id dependencies) (catalog.addDependencies id dependencies)
  | recordedBackwards (id : MemberId) (dependency : Dependency) :
      Effect catalog (.addBackwards id dependency) (catalog.addBackwards id dependency)
  | recordedBetween (dependency : TypeDependency) :
      Effect catalog (.addTypeDependency dependency) (catalog.addTypeDependency dependency)
  | linked (property field : MemberId) :
      Effect catalog (.linkBacking property field) (catalog.linkBacking property field).2
  | turnedAround : Effect catalog .linkBackwards catalog.linkBackwards.2

namespace Step

variable {catalog : Catalog} {step : Step}

theorem Effect.unchanged : step.Effect catalog catalog :=
  .grown (show Grows .existingOnly catalog catalog from .refl)

theorem analyse_effect {α : Type} {policy : CallPolicy} {run : Analysis → α × Analysis}
    (grows : Grows policy catalog (run { catalog }).2.catalog) (answer : α → Answer) :
    step.Effect catalog (catalog.analyse run answer).2 :=
  .grown grows

private theorem analyseOrFail_effect {α : Type} {policy : CallPolicy}
    {run : Analysis → Except ExtractionFailure α × Analysis}
    (grows : Grows policy catalog (run { catalog }).2.catalog) (answer : α → Answer) :
    step.Effect catalog (catalog.analyseOrFail run answer).2 := by
  have same : (catalog.analyseOrFail run answer).2 = (run { catalog }).2.catalog := by
    unfold analyseOrFail
    split <;> next ran => rw [ran]
  rw [same]
  exact .grown grows

theorem askType_effect (id : TypeId) (answer : Catalog → Answer) :
    step.Effect catalog (catalog.askType id answer).2 := by
  unfold askType
  split
  · exact .unchanged
  · exact .unchanged

private theorem changeMember_effect {id : MemberId} {change : Catalog → Catalog}
    (changed : step.Effect catalog (change catalog)) :
    step.Effect catalog (catalog.changeMember id change).2 := by
  unfold changeMember
  split
  · exact changed
  · exact .unchanged

private theorem methodForOn_effect (sound : catalog.Sound) (on : TypeId)
    (reference : MethodReference) :
    (Step.methodFor on reference).Effect catalog (catalog.methodForOn on reference).2 := by
  unfold methodForOn
  dsimp only
  split
  · next accepted =>
      cases missing : catalog.methodNamed? on reference.fullName with
      | some id =>
          simp only [Analysis.methodFor, missing]
          exact .unchanged
      | none =>
          let analysis : Analysis := { catalog }
          have added : analysis.methodFor on reference = _ := Analysis.methodFor_of_missing missing
          rw [added] at accepted ⊢
          dsimp only at accepted ⊢
          have withReturn : Grows .existingOnly analysis.catalog
              (analysis.typeFor reference.returnType).2.catalog := Analysis.typeFor_grows _
          have returnKnown := Analysis.typeFor_known (show analysis.catalog.Sound from sound)
            reference.returnType
          generalize analysis.typeFor reference.returnType = first
            at withReturn returnKnown accepted ⊢
          have typed : Grows .existingOnly first.2.catalog
              (first.2.typesFor reference.parameters).2.catalog := Analysis.typesFor_grows _
          have parametersKnown := Analysis.typesFor_known (withReturn.sound sound)
            reference.parameters
          generalize first.2.typesFor reference.parameters = second
            at typed parametersKnown accepted ⊢
          have grown : Grows .existingOnly catalog second.2.catalog := withReturn.trans typed
          refine .stubbed grown ?_ (typed.extends.hasType returnKnown) parametersKnown
          intro fresh
          rcases accepted with known | taken
          · simpa using known
          · obtain ⟨id, named⟩ := Option.isSome_iff_exists.mp taken
            rw [grown.extends.memberNamed? named] at fresh
            cases fresh
  · exact .unchanged

private theorem addMemberOn_effect (key : String) (on : TypeId) (name fullName : String)
    (memberType : TypeId) (visibility : Visibility) (isStub : Bool) (role : MemberRole) :
    (Step.addMember key on name fullName memberType visibility isStub role).Effect catalog
      (catalog.addMemberOn key on
        (newMember on name fullName memberType visibility isStub role)).2 := by
  unfold addMemberOn
  split
  · next accepted =>
      refine .inserted fun fresh => ?_
      rcases accepted with known | taken
      · exact known
      · rw [fresh] at taken
        cases taken
  · exact .unchanged

theorem effect (sound : catalog.Sound) (step : Step) :
    step.Effect catalog (step.apply catalog).2 := by
  let start : Analysis := { catalog }
  have soundStart : start.catalog.Sound := sound
  cases step with
  | defineType reference kind visibility => exact .defined reference kind visibility
  | typeFor reference =>
      have grown : Grows .existingOnly start.catalog (start.typeFor reference).2.catalog :=
        Analysis.typeFor_grows reference
      exact analyse_effect grown _
  | methodFor on reference => exact methodForOn_effect sound on reference
  | addMember key on name fullName memberType visibility isStub role =>
      exact addMemberOn_effect key on name fullName memberType visibility isStub role
  | getType id => simp only [Step.apply]; split <;> exact .unchanged
  | getMember id => simp only [Step.apply]; split <;> exact .unchanged
  | findType fullName => exact .unchanged
  | containsType fullName => exact .unchanged
  | findMember fullName => exact .unchanged
  | findMethod on fullName => exact .unchanged
  | declaredMembers on => exact askType_effect on _
  | declaredProperties on => exact askType_effect on _
  | declaredFields on => exact askType_effect on _
  | propertyNamed on name => exact askType_effect on _
  | propertyEnding on suffix => exact askType_effect on _
  | fieldNamed on name => exact askType_effect on _
  | addDependencies id dependencies => exact changeMember_effect (.recorded id dependencies)
  | addBackwards id dependency => exact changeMember_effect (.recordedBackwards id dependency)
  | addTypeDependency dependency =>
      simp only [Step.apply, addTypeDependencyChecked]
      split
      · exact .unchanged
      · split
        · exact .unchanged
        · exact .recordedBetween dependency
  | linkBacking property field =>
      simp only [Step.apply, linkBackingChecked]
      split
      · exact .unchanged
      · split
        · exact .unchanged
        · exact .linked property field
  | mayBack field property => simp only [Step.apply]; split <;> exact .unchanged
  | isEmpty => exact .unchanged
  | linkBackwards =>
      simp only [Step.apply, linkBackwardsChecked]
      split
      · exact .unchanged
      · exact .turnedAround
  | extract on definition options =>
      exact analyseOrFail_effect (Analysis.extractType_grows soundStart on definition) _
  | tieAccessor on method definition policy =>
      simp only [Step.apply]
      split
      · exact .unchanged
      · exact analyseOrFail_effect (Analysis.tieAccessor_grows soundStart on method definition) _
  | attach on body policy =>
      simp only [Step.apply]
      split
      · exact analyse_effect (Analysis.attachStoredCalls_grows soundStart on body) _
      · exact .unchanged
  | propertyOf on convention name fullName =>
      simp only [Step.apply]
      split
      · exact .unchanged
      · have same : (start.propertyOf on convention name fullName).2.catalog = start.catalog :=
          (Analysis.propertyOf_eq on convention name fullName).2
        have grown : Grows .existingOnly catalog
            (start.propertyOf on convention name fullName).2.catalog := by
          rw [same]
        exact analyse_effect grown _
  | signatureUses origin method =>
      have grown : Grows .existingOnly start.catalog (start.signatureUses origin method).2.catalog :=
        Analysis.typeUses_grows .signature origin _
      exact analyse_effect grown _
  | bodyUses origin body =>
      have grown : Grows .existingOnly start.catalog (start.bodyUses origin body).2.catalog :=
        Analysis.typeUses_grows .body origin _
      exact analyse_effect grown _
  | callUses origin body policy =>
      exact analyse_effect (Analysis.callUses_grows soundStart origin body) _
  | resolve reference policy => exact analyse_effect (Analysis.resolve_grows soundStart reference) _
  | graph => exact .unchanged
  | neighbours id => exact .unchanged
  | snapshot => exact .unchanged

/-! ## Invariants -/

theorem Effect.sound {later : Catalog} (effect : step.Effect catalog later)
    (sound : catalog.Sound) : later.Sound := by
  cases effect with
  | grown grows => exact grows.sound sound
  | defined reference kind visibility => exact sound.defineType reference kind visibility
  | stubbed grows declared returnKnown parametersKnown => exact (grows.sound sound).addMember rfl
  | inserted declared => exact sound.addMember rfl
  | recorded id dependencies => exact sound.of_updated (updated_addDependencies id dependencies)
  | recordedBackwards id dependency => exact sound.of_updated (updated_addBackwards id dependency)
  | recordedBetween dependency => exact sound.of_updated (updated_addTypeDependency dependency)
  | linked property field => exact sound.of_updated (updated_linkBacking property field)
  | turnedAround => exact sound.of_updated updated_linkBackwards

/-- What a step records leads to entries, and a member that it adds fits the catalog. -/
def InRange (catalog : Catalog) : Step → Prop
  | .addMember key on name fullName memberType visibility isStub role =>
    catalog.Insertable key (newMember on name fullName memberType visibility isStub role)
  | .addDependencies _ dependencies => ∀ dependency ∈ dependencies, catalog.Knows dependency
  | .addBackwards _ dependency => catalog.Knows dependency
  | .addTypeDependency dependency => catalog.KnowsBetween dependency
  | _ => True

theorem Effect.wellFormed {later : Catalog} (effect : step.Effect catalog later)
    (formed : catalog.WellFormed) (inRange : step.InRange catalog) : later.WellFormed := by
  cases effect with
  | grown grows => exact grows.wellFormed formed
  | defined reference kind visibility => exact formed.defineType reference kind visibility
  | stubbed grows declared returnKnown parametersKnown =>
      exact (grows.wellFormed formed).addMember fun fresh =>
        stubMethod_insertable (declared fresh) returnKnown parametersKnown
  | inserted declared => exact formed.addMember fun _ => inRange
  | recorded id dependencies => exact formed.addDependencies inRange
  | recordedBackwards id dependency => exact formed.addBackwards inRange
  | recordedBetween dependency => exact formed.addTypeDependency inRange
  | linked property field => exact formed.linkBacking property field
  | turnedAround =>
      have turned : Changes .existingOnly catalog catalog.linkBackwards.2 :=
        linkBackwards_changes formed
      exact turned.wellFormed formed

end Step

def Step.Leads (kind : Step → Prop) (old new : Catalog) : Prop :=
  ∃ step, kind step ∧ (Step.apply old step).2 = new

abbrev Step.Reaches (kind : Step → Prop) : Catalog → Catalog → Prop :=
  Relation.ReflTransGen (Step.Leads kind)

def Step.run (catalog : Catalog) (steps : List Step) : Catalog :=
  steps.foldl (fun catalog step => (step.apply catalog).2) catalog

theorem Step.reaches_run {kind : Step → Prop} {steps : List Step}
    (ofKind : ∀ step ∈ steps, kind step) (catalog : Catalog) :
    Step.Reaches kind catalog (Step.run catalog steps) := by
  induction steps generalizing catalog with
  | nil => exact .refl
  | cons step rest ih =>
      refine .head ⟨step, ofKind step (by simp), rfl⟩ (ih (fun other there => ?_) _)
      exact ofKind other (List.mem_cons_of_mem _ there)

theorem Step.Reaches.sound {kind : Step → Prop} {old new : Catalog}
    (reaches : Step.Reaches kind old new) (sound : old.Sound) : new.Sound := by
  induction reaches with
  | refl => exact sound
  | tail _ leads before =>
      obtain ⟨step, _, rfl⟩ := leads
      exact (step.effect before).sound before

end MemberGraph
