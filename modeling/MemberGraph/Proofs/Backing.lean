import MemberGraph.Proofs.Representation

/-!
Backing links pair properties with fields. A catalog changes its links in one way only, by linking
a property to a field that is free or stores it already, so no field ever stores two properties and
no property that has a field loses it without getting another.
-/

set_option autoImplicit false

namespace MemberGraph

/-! ## What a link changes -/

namespace Member

variable (member : Member)

theorem property?_withBackedProperty (backed : Option MemberId) :
    (member.withBackedProperty backed).property? = member.property? := by
  unfold withBackedProperty
  split
  · next isField => simp [property?, isField]
  · rfl

private theorem backedProperty?_withBackedProperty (backed : Option MemberId) :
    (member.withBackedProperty backed).backedProperty? =
      if member.isField then backed else none := by
  cases role : member.role <;> simp [withBackedProperty, backedProperty?, isField, role]

private theorem property?_withBackingField (field : MemberId) :
    (member.withBackingField field).property? =
      member.property?.map fun links => { links with backingField := some field } := by
  cases role : member.role <;> simp [withBackingField, property?, role]

theorem backedProperty?_withBackingField (field : MemberId) :
    (member.withBackingField field).backedProperty? = member.backedProperty? := by
  unfold withBackingField
  split
  · next isProperty => simp [backedProperty?, isProperty]
  · rfl

end Member

namespace Catalog

section Link

variable {catalog : Catalog}

private theorem linksOf?_updateMember (id other : MemberId) (change : Member → Member) :
    (catalog.updateMember id change).linksOf? other =
      if id = other then (catalog.member? other).bind fun member => (change member).property?
      else catalog.linksOf? other := by
  unfold linksOf?
  rw [member?_updateMember]
  split
  · exact Option.bind_map ..
  · rfl

theorem backedProperty?_updateMember (id other : MemberId) (change : Member → Member) :
    (catalog.updateMember id change).backedProperty? other =
      if id = other then (catalog.member? other).bind fun member => (change member).backedProperty?
      else catalog.backedProperty? other := by
  unfold backedProperty?
  rw [member?_updateMember]
  split
  · exact Option.bind_map ..
  · rfl

private theorem linksOf?_withBackedProperty (id other : MemberId) (backed : Option MemberId) :
    (catalog.updateMember id (·.withBackedProperty backed)).linksOf? other =
      catalog.linksOf? other := by
  simp only [linksOf?_updateMember, Member.property?_withBackedProperty]
  exact ite_self _

private theorem linksOf?_freePrevious (previous : Option MemberId) (field other : MemberId) :
    (catalog.freePrevious previous field).linksOf? other = catalog.linksOf? other := by
  unfold freePrevious
  split
  · split
    · rfl
    · exact linksOf?_withBackedProperty ..
  · rfl

theorem backedProperty?_withBackingField (id field other : MemberId) :
    (catalog.updateMember id (·.withBackingField field)).backedProperty? other =
      catalog.backedProperty? other := by
  simp only [backedProperty?_updateMember, Member.backedProperty?_withBackingField]
  exact ite_self _

private theorem backedProperty?_freePrevious (previous : Option MemberId) {field other : MemberId}
    (notNew : other ≠ field) :
    (catalog.freePrevious previous field).backedProperty? other =
      if previous = some other then none else catalog.backedProperty? other := by
  unfold freePrevious
  split
  · next before =>
      split
      · next same =>
          subst same
          rw [if_neg (by simpa using notNew.symm)]
      · simp only [backedProperty?_updateMember, Member.backedProperty?_withBackedProperty,
          ite_self, Option.bind_fun_none, Option.some.injEq]
  · simp

variable {property field : MemberId} {links : PropertyLinks}
  (allowed : catalog.mayBack field property) (linked : catalog.linksOf? property = some links)
include allowed linked

theorem backingField?_linkBacking (other : MemberId) :
    (catalog.linkBacking property field).2.backingField? other =
      if property = other then some field else catalog.backingField? other := by
  rw [linkBacking_of_allowed allowed linked]
  unfold backingField?
  rw [linksOf?_withBackedProperty, linksOf?_freePrevious, linksOf?_updateMember]
  split
  · next same =>
      subst same
      obtain ⟨member, found, isProperty⟩ := linksOf?_eq_some_iff.mp linked
      simp [found, isProperty, Member.property?_withBackingField]
  · rfl

private theorem backedProperty?_linkBacking (other : MemberId) :
    (catalog.linkBacking property field).2.backedProperty? other =
      if field = other then some property
      else if links.backingField = some other then none
      else catalog.backedProperty? other := by
  rw [linkBacking_of_allowed allowed linked]
  simp only [backedProperty?_updateMember, Member.backedProperty?_withBackedProperty]
  split
  · next same =>
      subst same
      obtain ⟨member, found, isField, _⟩ := mayBack_iff.mp allowed
      have extended : catalog.Updated ((catalog.updateMember property
          (·.withBackingField field)).freePrevious links.backingField field) :=
        (updated_updateMember fun member _ => member.extends_withBackingField field).trans
          (updated_freePrevious links.backingField field)
      obtain ⟨later, there, memberExtended⟩ := extended.member? found
      simp [there, memberExtended.isField, isField]
  · next differs =>
      rw [backedProperty?_freePrevious _ (Ne.symm differs), backedProperty?_withBackingField]

end Link

/-! ## Pairing -/

/-- What a property or field is linked to is linked back to it. -/
def Paired (catalog : Catalog) : Prop :=
  ∀ property field,
    catalog.backingField? property = some field ↔ catalog.backedProperty? field = some property

theorem paired_empty : empty.Paired := by
  intro property field
  simp [backingField?, backedProperty?, linksOf?, member?, empty]

theorem Paired.linkBacking {catalog : Catalog} (paired : catalog.Paired)
    (property field : MemberId) : (catalog.linkBacking property field).2.Paired := by
  rcases catalog.linkBacking_cases property field with ⟨links, allowed, linked⟩ | ⟨refused, _⟩
  · intro one other
    rw [backingField?_linkBacking allowed linked, backedProperty?_linkBacking allowed linked]
    have previous : links.backingField = some other ↔
        catalog.backedProperty? other = some property := by
      rw [← paired property other, backingField?, linked]
      rfl
    have free : ∀ owner, catalog.backedProperty? field = some owner → owner = property := by
      intro owner stored
      obtain ⟨member, found, _, owned⟩ := mayBack_iff.mp allowed
      rw [backedProperty?, found] at stored
      exact owned owner stored
    have before := paired one other
    grind
  · rw [refused]
    exact paired

/-! ## Changes of links -/

def DeclaredTogether (catalog : Catalog) (first second : MemberId) : Prop :=
  ∃ left right, catalog.member? first = some left ∧ catalog.member? second = some right ∧
    left.declaringType = right.declaringType

def LinkedTogether (catalog : Catalog) : Prop :=
  ∀ property field, catalog.backingField? property = some field →
    catalog.DeclaredTogether property field

def linkState (catalog : Catalog) (id : MemberId) : Option (MemberRole × TypeId) :=
  (catalog.member? id).map fun member => (member.role, member.declaringType)

/-- What a change may do to backing links: it keeps all, or makes one. If links are `free`, it may
be one between any property and field, otherwise only between members of one type. -/
inductive Relinking (free : Prop) : Catalog → Catalog → Prop where
  | kept {old new : Catalog}
      (backing : ∀ property, new.backingField? property = old.backingField? property)
      (backed : ∀ field, new.backedProperty? field = old.backedProperty? field)
      (together : ∀ {first second}, old.DeclaredTogether first second →
        new.DeclaredTogether first second) : Relinking free old new
  | linked {catalog : Catalog} (property field : MemberId)
      (accepted : free ∨ catalog.DeclaredTogether property field) :
      Relinking free catalog (catalog.linkBacking property field).2

theorem Extends.declaredTogether {old new : Catalog} (extended : old.Extends new)
    {first second : MemberId} (together : old.DeclaredTogether first second) :
    new.DeclaredTogether first second := by
  obtain ⟨left, right, leftFound, rightFound, same⟩ := together
  obtain ⟨laterLeft, leftThere, leftExtended⟩ := extended.member? leftFound
  obtain ⟨laterRight, rightThere, rightExtended⟩ := extended.member? rightFound
  refine ⟨laterLeft, laterRight, leftThere, rightThere, ?_⟩
  rw [leftExtended.declaringType, rightExtended.declaringType, same]

section Relinking

variable {free : Prop} {old new : Catalog}

theorem Relinking.paired (relinking : Relinking free old new) (paired : old.Paired) :
    new.Paired := by
  cases relinking with
  | kept backing backed together =>
      intro property field
      rw [backing, backed]
      exact paired property field
  | linked property field accepted => exact paired.linkBacking property field

theorem Relinking.backingField?_isSome (relinking : Relinking free old new) {property : MemberId}
    (stored : (old.backingField? property).isSome) : (new.backingField? property).isSome := by
  cases relinking with
  | kept backing backed together => rwa [backing]
  | linked target field accepted =>
      rcases old.linkBacking_cases target field with ⟨links, allowed, linked⟩ | ⟨refused, _⟩
      · rw [backingField?_linkBacking allowed linked]
        split
        · rfl
        · exact stored
      · rwa [refused]

theorem Relinking.linkedTogether (relinking : Relinking False old new)
    (together : old.LinkedTogether) : new.LinkedTogether := by
  cases relinking with
  | kept backing backed kept =>
      intro property field stored
      rw [backing] at stored
      exact kept (together property field stored)
  | linked target storage accepted =>
      have extended : old.Extends (old.linkBacking target storage).2 := extends_linkBacking _ _
      intro property field stored
      rcases old.linkBacking_cases target storage with ⟨links, allowed, linked⟩ | ⟨refused, _⟩
      · rw [backingField?_linkBacking allowed linked] at stored
        split at stored
        · next same =>
            cases stored
            exact same ▸ extended.declaredTogether (accepted.resolve_left id)
        · exact extended.declaredTogether (together property field stored)
      · rw [refused] at stored ⊢
        exact together property field stored

private theorem linkState_cases {id : MemberId} (same : new.linkState id = old.linkState id) :
    (old.member? id = none ∧ new.member? id = none) ∨
      ∃ before after, old.member? id = some before ∧ new.member? id = some after ∧
        after.role = before.role ∧ after.declaringType = before.declaringType := by
  cases found : old.member? id <;> cases there : new.member? id <;> simp_all [linkState]

theorem backingField?_congr {property : MemberId}
    (same : new.linkState property = old.linkState property) :
    new.backingField? property = old.backingField? property := by
  rcases linkState_cases same with ⟨missing, gone⟩ | ⟨before, after, found, there, role, _⟩
  · simp [backingField?, linksOf?, missing, gone]
  · simp [backingField?, linksOf?, found, there, Member.property?, role]

theorem backedProperty?_congr {field : MemberId}
    (same : new.linkState field = old.linkState field) :
    new.backedProperty? field = old.backedProperty? field := by
  rcases linkState_cases same with ⟨missing, gone⟩ | ⟨before, after, found, there, role, _⟩
  · simp [backedProperty?, missing, gone]
  · simp [backedProperty?, found, there, Member.backedProperty?, role]

theorem Relinking.of_linkState (same : ∀ id, new.linkState id = old.linkState id) :
    Relinking free old new := by
  refine .kept (fun id => backingField?_congr (same id)) (fun id => backedProperty?_congr (same id))
    ?_
  rintro first second ⟨left, right, leftFound, rightFound, together⟩
  rcases linkState_cases (same first) with
    ⟨missing, _⟩ | ⟨_, laterLeft, found, leftThere, _, leftType⟩
  · simp [missing] at leftFound
  · rcases linkState_cases (same second) with
      ⟨missing, _⟩ | ⟨_, laterRight, alsoFound, rightThere, _, rightType⟩
    · simp [missing] at rightFound
    · rw [leftFound] at found
      rw [rightFound] at alsoFound
      cases found
      cases alsoFound
      exact ⟨laterLeft, laterRight, leftThere, rightThere,
        leftType.trans (together.trans rightType.symm)⟩

theorem linkState_addDependencies {catalog : Catalog} (id : MemberId)
    (dependencies : List Dependency) (other : MemberId) :
    (catalog.addDependencies id dependencies).linkState other = catalog.linkState other := by
  simp only [linkState, addDependencies, member?_updateMember]
  split
  · rw [Option.map_map]
    rfl
  · rfl

theorem linkState_addBackwards {catalog : Catalog} (id : MemberId) (dependency : Dependency)
    (other : MemberId) :
    (catalog.addBackwards id dependency).linkState other = catalog.linkState other := by
  simp only [linkState, addBackwards, member?_updateMember]
  split
  · rw [Option.map_map]
    rfl
  · rfl

private theorem linkState_defineType {catalog : Catalog} (reference : TypeReference)
    (kind : TypeKind) (visibility : Visibility) (id : MemberId) :
    (catalog.defineType reference kind visibility).2.linkState id = catalog.linkState id := by
  unfold defineType
  split <;> rfl

theorem Unlinked.backingField {member : Member} (unlinked : Unlinked member) :
    member.property?.bind (·.backingField) = none := by
  unfold Unlinked at unlinked
  cases role : member.role with
  | method traits => simp [Member.property?, role]
  | field backed => simp [Member.property?, role]
  | property links =>
      rw [role] at unlinked
      have same : { links with backingField := none } = links := MemberRole.property.inj unlinked
      rw [Member.property?, role]
      exact (congrArg PropertyLinks.backingField same).symm

theorem Unlinked.backedProperty {member : Member} (unlinked : Unlinked member) :
    member.backedProperty? = none := by
  unfold Unlinked at unlinked
  cases role : member.role with
  | method traits => simp [Member.backedProperty?, role]
  | property links => simp [Member.backedProperty?, role]
  | field backed =>
      rw [role] at unlinked
      rw [Member.backedProperty?, role]
      exact (MemberRole.field.inj unlinked).symm

theorem Relinking.addMember {catalog : Catalog} {key : String} {make : MemberId → Member}
    (unlinked : Unlinked (make ⟨catalog.members.size⟩)) :
    Relinking free catalog (catalog.addMember key make).2 := by
  cases fresh : catalog.memberNamed? key with
  | some id =>
      rw [addMember_of_known make fresh]
      exact .of_linkState fun _ => rfl
  | none =>
      have missing : catalog.member? ⟨catalog.members.size⟩ = none := by simp [member?]
      refine .kept ?_ ?_ (extends_addMember key make).declaredTogether
      · rintro ⟨index⟩
        by_cases atEnd : index = catalog.members.size
        · subst atEnd
          simp [backingField?, linksOf?, member?_addMember make fresh, missing,
            unlinked.backingField]
        · simp [backingField?, linksOf?, member?_addMember make fresh, atEnd]
      · rintro ⟨index⟩
        by_cases atEnd : index = catalog.members.size
        · subst atEnd
          simp [backedProperty?, member?_addMember make fresh, missing, unlinked.backedProperty]
        · simp [backedProperty?, member?_addMember make fresh, atEnd]

theorem Growth.relinking {policy : CallPolicy} (growth : Growth policy old new) :
    Relinking free old new := by
  cases growth with
  | stubType fresh => exact .of_linkState fun _ => rfl
  | stubMethod wanted stub fresh returnKnown parametersKnown => exact .addMember rfl
  | dependencies offered => exact .of_linkState (linkState_addDependencies _ _)
  | link propertyFound fieldFound sameType =>
      exact .linked _ _ (.inr ⟨_, _, propertyFound, fieldFound, sameType⟩)

theorem Change.relinking {policy : CallPolicy} (change : Change policy old new) :
    Relinking free old new := by
  cases change with
  | growth growth => exact growth.relinking
  | define reference kind visibility =>
      exact .of_linkState (linkState_defineType reference kind visibility)
  | insert insertable unlinked => exact .addMember (unlinked _)
  | record known => exact .of_linkState (linkState_addDependencies _ _)
  | recordBackwards known => exact .of_linkState (linkState_addBackwards _ _)
  | recordBetween known => exact .of_linkState fun _ => rfl

private theorem linkState_linkBackwards {catalog : Catalog} (id : MemberId) :
    catalog.linkBackwards.2.linkState id = catalog.linkState id :=
  linkBackwards_induction (motive := fun later => later.linkState id = catalog.linkState id)
    (fun _ _ before => (linkState_addBackwards ..).trans before) (fun _ before => before) rfl

abbrev Relinkings (free : Prop) : Catalog → Catalog → Prop :=
  Relation.ReflTransGen (Relinking free)

theorem Relinkings.paired (relinkings : Relinkings free old new) (paired : old.Paired) :
    new.Paired := by
  induction relinkings with
  | refl => exact paired
  | tail _ relinking before => exact relinking.paired before

theorem Relinkings.backingField?_isSome (relinkings : Relinkings free old new)
    {property : MemberId} (stored : (old.backingField? property).isSome) :
    (new.backingField? property).isSome := by
  induction relinkings with
  | refl => exact stored
  | tail _ relinking before => exact relinking.backingField?_isSome before

theorem Relinkings.linkedTogether (relinkings : Relinkings False old new)
    (together : old.LinkedTogether) : new.LinkedTogether := by
  induction relinkings with
  | refl => exact together
  | tail _ relinking before => exact relinking.linkedTogether before

theorem Grows.relinkings {policy : CallPolicy} (grows : Grows policy old new) :
    Relinkings free old new :=
  Relation.ReflTransGen.mono (fun _ _ growth => growth.relinking) _ _ grows

theorem Changes.relinkings {policy : CallPolicy} (changes : Changes policy old new) :
    Relinkings free old new :=
  Relation.ReflTransGen.mono (fun _ _ change => change.relinking) _ _ changes

end Relinking

theorem linkedTogether_empty : empty.LinkedTogether := by
  intro property field stored
  simp [backingField?, linksOf?, member?, empty] at stored

theorem linkBacking_fst_iff {catalog : Catalog} {property field : MemberId} :
    (catalog.linkBacking property field).1 = true ↔
      ((catalog.member? field).any (·.isField) ∧ (catalog.member? property).any (·.isProperty) ∧
        (catalog.backedProperty? field = none ∨ catalog.backedProperty? field = some property)) := by
  have back : catalog.mayBack field property ↔ (catalog.member? field).any (·.isField) ∧
      (catalog.backedProperty? field = none ∨ catalog.backedProperty? field = some property) := by
    cases found : catalog.member? field with
    | none => simp [mayBack, found]
    | some member =>
        cases stored : member.backedProperty? with
        | none => simp [mayBack, backedProperty?, found, stored]
        | some owner => simp [mayBack, backedProperty?, found, stored]
  have isProperty : (catalog.linksOf? property).isSome ↔
      (catalog.member? property).any (·.isProperty) := by
    cases found : catalog.member? property with
    | none => simp [linksOf?, found]
    | some member => simp [linksOf?, found, Member.isProperty]
  rcases catalog.linkBacking_cases property field with ⟨links, allowed, linked⟩ | ⟨refused, why⟩
  · have storable := back.mp allowed
    have proper := isProperty.mp (by rw [linked]; rfl)
    rw [linkBacking_of_allowed allowed linked]
    exact ⟨fun _ => ⟨storable.1, proper, storable.2⟩, fun _ => rfl⟩
  · rw [refused]
    constructor
    · intro made
      cases made
    · rintro ⟨isField, proper, owner⟩
      exact absurd ⟨back.mpr ⟨isField, owner⟩, isProperty.mpr proper⟩ why

private theorem linkBacking_refused {catalog : Catalog} {property field : MemberId}
    (refused : (catalog.linkBacking property field).1 = false) :
    (catalog.linkBacking property field).2 = catalog := by
  rcases catalog.linkBacking_cases property field with ⟨links, allowed, linked⟩ | ⟨same, _⟩
  · rw [linkBacking_of_allowed allowed linked] at refused
    cases refused
  · rw [same]

end Catalog

/-! ## Sessions -/

namespace Step

open Catalog

def AddsUnlinked : Step → Prop
  | .addMember _ _ _ _ _ _ _ role => role.withoutBacking = role
  | _ => True

def LinksDirectly : Step → Prop
  | .linkBacking _ _ => True
  | _ => False

theorem Effect.relinkings {catalog later : Catalog} {step : Step} {free : Prop}
    (effect : step.Effect catalog later) (unlinked : step.AddsUnlinked)
    (indirect : step.LinksDirectly → free) : Relinkings free catalog later := by
  cases effect with
  | grown grows => exact grows.relinkings
  | defined reference kind visibility =>
      exact .single (.of_linkState (linkState_defineType reference kind visibility))
  | stubbed grows declared returnKnown parametersKnown =>
      exact grows.relinkings.tail (.addMember rfl)
  | inserted declared => exact .single (.addMember unlinked)
  | recorded id dependencies =>
      exact .single (.of_linkState (linkState_addDependencies id dependencies))
  | recordedBackwards id dependency =>
      exact .single (.of_linkState (linkState_addBackwards id dependency))
  | recordedBetween dependency => exact .single (.of_linkState fun _ => rfl)
  | linked property field => exact .single (.linked property field (.inl (indirect trivial)))
  | turnedAround => exact .single (.of_linkState linkState_linkBackwards)

theorem Reaches.relinkings {kind : Step → Prop} {free : Prop} {old new : Catalog}
    (unlinked : ∀ step, kind step → step.AddsUnlinked ∧ (step.LinksDirectly → free))
    (reaches : Reaches kind old new) (sound : old.Sound) : Relinkings free old new := by
  induction reaches with
  | refl => exact .refl
  | tail before leads relinkings =>
      obtain ⟨step, ofKind, rfl⟩ := leads
      have effect := step.effect (Reaches.sound before sound)
      exact relinkings.trans
        (effect.relinkings (unlinked step ofKind).1 (unlinked step ofKind).2)

end Step

/-- Backing links pair properties with fields in every catalog that steps lead to from nothing, and
a property that has a field never loses it without getting another. A link is made exactly if field
and property fit, and otherwise nothing changes. Links that are not made by a step that names both
ends, as in a whole analysis, stay within one type. -/
theorem backing_links_paired :
    (∀ catalog, Step.Reaches Step.AddsUnlinked Catalog.empty catalog →
      (∀ property field, catalog.backingField? property = some field ↔
        catalog.backedProperty? field = some property) ∧
      ∀ later, Step.Reaches Step.AddsUnlinked catalog later →
        ∀ property, (catalog.backingField? property).isSome →
          (later.backingField? property).isSome) ∧
    (∀ (catalog : Catalog) (property field : MemberId),
      ((catalog.linkBacking property field).1 = true ↔
        ((catalog.member? field).any (·.isField) ∧ (catalog.member? property).any (·.isProperty) ∧
          (catalog.backedProperty? field = none ∨
            catalog.backedProperty? field = some property))) ∧
      ((catalog.linkBacking property field).1 = false →
        (catalog.linkBacking property field).2 = catalog)) ∧
    (∀ catalog,
      Step.Reaches (fun step => step.AddsUnlinked ∧ ¬step.LinksDirectly) Catalog.empty catalog →
        ∀ property field, catalog.backingField? property = some field →
          catalog.DeclaredTogether property field) ∧
    ∀ options metadata catalog, Analysis.BuildStage options metadata catalog →
      ∀ property field,
        (catalog.backingField? property = some field ↔
          catalog.backedProperty? field = some property) ∧
        (catalog.backingField? property = some field →
          catalog.DeclaredTogether property field) := by
  have soundEmpty := Catalog.wellFormed_empty.sound
  refine ⟨fun catalog reaches => ⟨?_, fun later further property => ?_⟩,
    fun catalog property field => ⟨Catalog.linkBacking_fst_iff, Catalog.linkBacking_refused⟩,
    fun catalog reaches => ?_, fun options metadata catalog stage property field => ⟨?_, ?_⟩⟩
  · have relinkings : Catalog.Relinkings True Catalog.empty catalog :=
      Step.Reaches.relinkings (fun _ unlinked => ⟨unlinked, fun _ => trivial⟩) reaches soundEmpty
    exact relinkings.paired Catalog.paired_empty
  · have relinkings : Catalog.Relinkings True catalog later :=
      Step.Reaches.relinkings (fun _ unlinked => ⟨unlinked, fun _ => trivial⟩) further
        (Step.Reaches.sound reaches soundEmpty)
    exact relinkings.backingField?_isSome
  · have relinkings : Catalog.Relinkings False Catalog.empty catalog :=
      Step.Reaches.relinkings (fun _ kind => kind) reaches soundEmpty
    exact relinkings.linkedTogether Catalog.linkedTogether_empty
  · have relinkings : Catalog.Relinkings False Catalog.empty catalog := stage.changes.relinkings
    exact relinkings.paired Catalog.paired_empty property field
  · have relinkings : Catalog.Relinkings False Catalog.empty catalog := stage.changes.relinkings
    exact relinkings.linkedTogether Catalog.linkedTogether_empty property field

def orderSession : List Step :=
  [.defineType { fullName := "Shop.Order" } .classType .pub,
    .addMember "Shop.Order::_total" ⟨0⟩ "_total" "Shop.Order::_total" ⟨0⟩ .priv false (.field none),
    .addMember "Shop.Order::get_Total()" ⟨0⟩ "get_Total" "Shop.Order::get_Total()" ⟨0⟩ .pub false
      (.method { form := .getter }),
    .addMember "Shop.Order::Total" ⟨0⟩ "Total" "Shop.Order::Total" ⟨0⟩ .pub false
      (.property { getter := some ⟨1⟩ }),
    .extract ⟨0⟩ orderType {}]

def relinkSession : List Step :=
  [.addMember "Shop.Order::_sum" ⟨0⟩ "_sum" "Shop.Order::_sum" ⟨0⟩ .priv false (.field none),
    .linkBacking ⟨2⟩ ⟨3⟩]

theorem backing_links_paired_order :
    let catalog := Step.run Catalog.empty orderSession
    let later := Step.run catalog relinkSession
    catalog.backingField? ⟨2⟩ = some ⟨0⟩ ∧ catalog.backedProperty? ⟨0⟩ = some ⟨2⟩ ∧
      catalog.DeclaredTogether ⟨2⟩ ⟨0⟩ ∧ (later.backingField? ⟨2⟩).isSome ∧
      later.backedProperty? ⟨3⟩ = some ⟨2⟩ := by
  intro catalog later
  have stored : catalog.backingField? ⟨2⟩ = some ⟨0⟩ := by decide +kernel
  have relinked : later.backingField? ⟨2⟩ = some ⟨3⟩ := by decide +kernel
  have indirect : Step.Reaches (fun step => step.AddsUnlinked ∧ ¬step.LinksDirectly)
      Catalog.empty catalog :=
    Step.reaches_run (by simp [orderSession, Step.AddsUnlinked, Step.LinksDirectly,
      MemberRole.withoutBacking]) _
  have reached : Step.Reaches Step.AddsUnlinked Catalog.empty catalog :=
    Step.reaches_run (by simp [orderSession, Step.AddsUnlinked, MemberRole.withoutBacking]) _
  have further : Step.Reaches Step.AddsUnlinked catalog later :=
    Step.reaches_run (by simp [relinkSession, Step.AddsUnlinked, MemberRole.withoutBacking]) _
  have paired := backing_links_paired.1 catalog reached
  have pairedLater := backing_links_paired.1 later (reached.trans further)
  exact ⟨stored, (paired.1 _ _).mp stored, backing_links_paired.2.2.1 _ indirect _ _ stored,
    paired.2 later further _ (by rw [stored]; rfl), (pairedLater.1 _ _).mp relinked⟩

end MemberGraph
