import MemberGraph.Proofs.AccessorEffect

/-!
Which property a member implements. It is the only property of its type with the simple name that the
convention gives, or the only one whose full name ends in that name; where several fit, none is taken.
So the order in which a type lists its members does not matter.
-/

set_option autoImplicit false

namespace MemberGraph

open Analysis

private theorem Selection.among_perm {α : Type} {first second : List α} (same : first.Perm second) :
    among first = among second := by
  match first with
  | [] => rw [same.nil_eq]
  | [one] => rw [List.singleton_perm.mp same]
  | one :: two :: rest =>
      match second with
      | [] => cases same.eq_nil
      | [other] => cases List.perm_singleton.mp same
      | other :: another :: further => exact congrArg Selection.ambiguous same.length_eq

namespace Catalog

/-! ## Properties that fit -/

def DeclaresProperty (catalog : Catalog) (on : TypeId) (id : MemberId) (property : Member) : Prop :=
  catalog.member? id = some property ∧ property.isProperty ∧ property.declaringType = on

structure OnlyProperty (catalog : Catalog) (on : TypeId) (fits : Member → Prop) (id : MemberId) :
    Prop where
  there : ∃ property, catalog.DeclaresProperty on id property ∧ fits property
  only : ∀ {other property}, catalog.DeclaresProperty on other property → fits property → other = id

/-- A member is the only property of a type with the simple name that a convention gives for `name`. -/
def MatchesName (catalog : Catalog) (on : TypeId) (convention : Convention) (name : String)
    (id : MemberId) : Prop :=
  ∃ candidate, convention.property? name = some candidate ∧
    catalog.OnlyProperty on (·.name = candidate) id

/-- A member is the only property of a type whose full name ends in the name that a convention gives
for the member name inside `fullName`. -/
def MatchesEnding (catalog : Catalog) (on : TypeId) (convention : Convention) (fullName : String)
    (id : MemberId) : Prop :=
  ∃ candidate, convention.property? (FullName.memberName fullName) = some candidate ∧
    catalog.OnlyProperty on (fun property => FullName.endsInSegment property.fullName candidate) id

section Matching

variable {catalog : Catalog} {on : TypeId}

theorem WellFormed.unique?_among_properties_iff (formed : catalog.WellFormed) (fits : Member → Bool)
    {id : MemberId} :
    (Selection.among (((catalog.declaredProperties on).filter fits).map (·.id))).unique? = some id ↔
      catalog.OnlyProperty on (fits ·) id := by
  have shown : ∀ other, (∃ member, catalog.member? other = some member ∧
      member.declaringType = on ∧ (fits member && member.isProperty)) ↔
        ∃ property, catalog.DeclaresProperty on other property ∧ fits property := by
    intro other
    refine exists_congr fun member => ?_
    rw [DeclaresProperty, Bool.and_eq_true, and_assoc, and_assoc,
      and_comm (a := fits member = true), and_left_comm (b := member.isProperty = true)]
  rw [declaredProperties, List.filter_filter, formed.unique?_among_declared_iff]
  simp only [shown]
  constructor
  · intro exactly
    exact ⟨(exactly id).mpr rfl, fun declared fitting => (exactly _).mp ⟨_, declared, fitting⟩⟩
  · rintro ⟨fitting, only⟩ other
    constructor
    · rintro ⟨property, declared, fitsToo⟩
      exact only declared fitsToo
    · rintro rfl
      exact fitting

theorem WellFormed.propertyNamed_unique?_iff (formed : catalog.WellFormed) {name : String}
    {id : MemberId} : (catalog.propertyNamed on name).unique? = some id ↔
      catalog.OnlyProperty on (·.name = name) id := by
  simpa only [propertyNamed, beq_iff_eq] using formed.unique?_among_properties_iff (·.name == name)

theorem WellFormed.implemented?_eq_some_iff (formed : catalog.WellFormed) {convention : Convention}
    {name fullName : String} {id : MemberId} :
    catalog.implemented? on convention name fullName = some id ↔
      catalog.MatchesName on convention name id ∨
        (∀ other, ¬catalog.MatchesName on convention name other) ∧
          catalog.MatchesEnding on convention fullName id := by
  have byName : ∀ other, ((convention.property? name).bind fun candidate =>
      (catalog.propertyNamed on candidate).unique?) = some other ↔
        catalog.MatchesName on convention name other := by
    intro other
    simp only [Option.bind_eq_some_iff, formed.propertyNamed_unique?_iff, MatchesName]
  have byEnding : ((convention.property? (FullName.memberName fullName)).bind fun candidate =>
      (catalog.propertyEnding on candidate).unique?) = some id ↔
        catalog.MatchesEnding on convention fullName id := by
    simp only [Option.bind_eq_some_iff, MatchesEnding, propertyEnding,
      formed.unique?_among_properties_iff]
  rw [implemented?, Option.or_eq_some_iff, byName, byEnding, Option.eq_none_iff_forall_ne_some]
  simp only [ne_eq, byName]

/-- If two properties have the name that the convention gives for an accessor, none is found, not by
the end of the full name either. -/
theorem WellFormed.implemented?_of_ambiguous (formed : catalog.WellFormed)
    (ending : ∀ {id property}, catalog.DeclaresProperty on id property →
      FullName.endsInSegment property.fullName property.name)
    {convention : Convention} {name fullName candidate : String}
    (tail : FullName.memberName fullName = name)
    (derived : convention.property? name = some candidate) {first second : MemberId}
    {left right : Member} (different : first ≠ second)
    (declared : catalog.DeclaresProperty on first left) (named : left.name = candidate)
    (declaredToo : catalog.DeclaresProperty on second right) (namedToo : right.name = candidate) :
    catalog.implemented? on convention name fullName = none := by
  rw [Option.eq_none_iff_forall_ne_some]
  intro id found
  rcases formed.implemented?_eq_some_iff.mp found with ⟨same, given, only⟩ | ⟨_, same, given, only⟩
  · rw [derived, Option.some.injEq] at given
    subst given
    exact different ((only.only declared named).trans (only.only declaredToo namedToo).symm)
  · rw [tail, derived, Option.some.injEq] at given
    subst given
    have fits := named ▸ ending declared
    have fitsToo := namedToo ▸ ending declaredToo
    exact different ((only.only declared fits).trans (only.only declaredToo fitsToo).symm)

/-! ## Order of the members -/

def listing (catalog : Catalog) (on : TypeId) (members : Array MemberId) : Catalog :=
  catalog.updateType on ({ · with members })

private theorem declaredMembers_listing {entry : TypeEntry} (found : catalog.type? on = some entry)
    {members : Array MemberId} (same : members.toList.Perm entry.members.toList) :
    ((catalog.listing on members).declaredMembers on).Perm (catalog.declaredMembers on) := by
  have listed : (catalog.listing on members).type? on = some { entry with members } := by
    rw [listing, type?_updateType, if_pos rfl, found]
    rfl
  have unchanged : (catalog.listing on members).member? = catalog.member? := rfl
  simp only [declaredMembers, found, listed, unchanged]
  exact same.filterMap _

theorem implemented?_listing {entry : TypeEntry} (found : catalog.type? on = some entry)
    {members : Array MemberId} (same : members.toList.Perm entry.members.toList)
    (convention : Convention) (name fullName : String) :
    (catalog.listing on members).implemented? on convention name fullName =
      catalog.implemented? on convention name fullName := by
  have searched : ∀ fits : Member → Bool,
      Selection.among ((((catalog.listing on members).declaredProperties on).filter fits).map (·.id)) =
        Selection.among (((catalog.declaredProperties on).filter fits).map (·.id)) := by
    intro fits
    exact Selection.among_perm
      ((((declaredMembers_listing found same).filter _).filter _).map _)
  simp only [implemented?, propertyNamed, propertyEnding, searched]

end Matching

end Catalog

open Catalog

/-- Ambiguous names give no link. If two properties of a type have the name that the convention gives
for an accessor, the accessor stays unlinked and nothing changes. In general the property that is found
for a member is the only one of the type with the simple name given, or else the only one whose full
name ends in it, and it does not depend on the order in which the type lists its members. -/
theorem ambiguous_names_unlinked {analysis : Analysis} (formed : analysis.catalog.WellFormed)
    (on : TypeId) :
    ((∀ id property, analysis.catalog.DeclaresProperty on id property →
        FullName.endsInSegment property.fullName property.name) →
      ∀ (policy : CallPolicy) (method : MemberId) (definition : MethodDefinition)
        (convention : Convention) (candidate : String),
        definition.form.convention? = some convention → definition.body.isSome →
        FullName.memberName definition.fullName = definition.name →
        convention.property? definition.name = some candidate →
        (∃ first second left right, first ≠ second ∧
          analysis.catalog.DeclaresProperty on first left ∧ left.name = candidate ∧
          analysis.catalog.DeclaresProperty on second right ∧ right.name = candidate) →
        let outcome := analysis.tieAccessor policy on method definition
        outcome.1 = .ok .unlinked ∧ outcome.2.catalog = analysis.catalog) ∧
    ∀ (convention : Convention) (name fullName : String),
      let matched := (analysis.propertyOf on convention name fullName).1
      (∀ property, matched = some property ↔
        analysis.catalog.MatchesName on convention name property ∨
          (∀ other, ¬analysis.catalog.MatchesName on convention name other) ∧
            analysis.catalog.MatchesEnding on convention fullName property) ∧
      ∀ entry members, analysis.catalog.type? on = some entry →
        members.toList.Perm entry.members.toList →
        let reordered : Analysis := { analysis with catalog := analysis.catalog.listing on members }
        (reordered.propertyOf on convention name fullName).1 = matched := by
  refine ⟨fun ending policy method definition convention candidate form hasBody tail derived => ?_,
    fun convention name fullName => ⟨fun property => ?_, fun entry members found same => ?_⟩⟩
  · rintro ⟨first, second, left, right, different, declared, named, declaredToo, namedToo⟩
    have none := formed.implemented?_of_ambiguous (ending _ _) tail derived different declared named
      declaredToo namedToo
    have untied : analysis.catalog.tied? on definition = Option.none := by
      obtain ⟨body, hasBody⟩ := Option.isSome_iff_exists.mp hasBody
      rw [tied?, form, hasBody]
      exact none
    rcases tieAccessor_cases policy on method definition with ⟨_, _, _, tied, _⟩ |
      ⟨_, unchanged, unlinked | ⟨missing, _⟩⟩
    · rw [untied] at tied
      cases tied
    · exact ⟨unlinked, unchanged⟩
    · rw [form] at missing
      cases missing
  · rw [(propertyOf_eq on convention name fullName).1, formed.implemented?_eq_some_iff]
  · dsimp only
    rw [(propertyOf_eq on convention name fullName).1, (propertyOf_eq on convention name fullName).1,
      implemented?_listing found same]

def itemGetter : MethodDefinition :=
  let int : TypeReference := { fullName := "Sys.Int" }
  { MethodDefinition.ofSignature { fullName := "Shop.Shelf" } "get_Item" int [int] with
    isGetter := true
    body := some { instructions := [{ opcode := .ret }] } }

def shelfMetadata : Metadata :=
  let int : TypeReference := { fullName := "Sys.Int" }
  { assemblies :=
      [{ name := "shop"
         types :=
          [{ fullName := "Shop.Shelf"
             methods := [itemGetter]
             properties :=
              [{ name := "Size", fullName := "Shop.Shelf::Size", propertyType := int },
                { name := "Item", fullName := "Shop.Shelf::Item(Sys.Int)", propertyType := int },
                { name := "Item", fullName := "Shop.Shelf::Item(Sys.Text)", propertyType := int }] }] }] }

/-- Two properties are called like the item, so its getter stays unlinked; the size is found, also if
the members are listed the other way round. -/
theorem ambiguous_names_unlinked_shelf :
    let analysis := (allocate {} shelfMetadata).2
    let outcome := analysis.tieAccessor .stubExternal ⟨0⟩ ⟨0⟩ itemGetter
    let reordered : Analysis :=
      { analysis with catalog := analysis.catalog.listing ⟨0⟩ #[⟨3⟩, ⟨2⟩, ⟨1⟩, ⟨0⟩] }
    analysis.catalog.WellFormed ∧ outcome.1 = .ok .unlinked ∧
      outcome.2.catalog = analysis.catalog ∧
      (analysis.catalog.MatchesName ⟨0⟩ .getter "get_Size" ⟨1⟩ ∨
        analysis.catalog.MatchesEnding ⟨0⟩ .getter "Shop.Shelf::get_Size()" ⟨1⟩) ∧
      (reordered.propertyOf ⟨0⟩ .getter "get_Size" "Shop.Shelf::get_Size()").1 = some ⟨1⟩ := by
  intro analysis outcome reordered
  have formed : analysis.catalog.WellFormed := allocated_wellFormed shelfMetadata
  have ends : analysis.catalog.members.toList.all fun member =>
      FullName.endsInSegment member.fullName member.name := by decide +kernel
  have items : [(⟨2⟩ : MemberId), ⟨3⟩].all fun id => (analysis.catalog.member? id).any fun member =>
      member.isProperty && decide (member.declaringType = ⟨0⟩) && member.name == "Item" := by
    decide +kernel
  have sized : (analysis.propertyOf ⟨0⟩ .getter "get_Size" "Shop.Shelf::get_Size()").1 =
      some ⟨1⟩ := by decide +kernel
  have listed : (analysis.catalog.type? ⟨0⟩).any fun entry =>
      entry.members == #[⟨0⟩, ⟨1⟩, ⟨2⟩, ⟨3⟩] := by decide +kernel
  clear_value analysis
  have ending : ∀ id property, analysis.catalog.DeclaresProperty ⟨0⟩ id property →
      FullName.endsInSegment property.fullName property.name := by
    rintro id property ⟨found, _⟩
    exact List.all_eq_true.mp ends property (Array.mem_toList_iff.mpr (Array.mem_of_getElem? found))
  have item : ∀ id ∈ [(⟨2⟩ : MemberId), ⟨3⟩], ∃ property,
      analysis.catalog.DeclaresProperty ⟨0⟩ id property ∧ property.name = "Item" := by
    intro id there
    obtain ⟨property, found, fits⟩ := (Option.any_eq_true ..).mp (List.all_eq_true.mp items id there)
    simp only [Bool.and_eq_true, decide_eq_true_eq, beq_iff_eq] at fits
    exact ⟨property, ⟨found, fits.1.1, fits.1.2⟩, fits.2⟩
  obtain ⟨left, declared, named⟩ := item ⟨2⟩ (by simp)
  obtain ⟨right, declaredToo, namedToo⟩ := item ⟨3⟩ (by simp)
  obtain ⟨entry, found, members⟩ := (Option.any_eq_true ..).mp listed
  obtain ⟨unlinking, matching⟩ := ambiguous_names_unlinked formed ⟨0⟩
  obtain ⟨unlinked, unchanged⟩ := unlinking ending .stubExternal ⟨0⟩ itemGetter .getter "Item" rfl rfl
    (by decide +kernel) (by decide +kernel)
    ⟨⟨2⟩, ⟨3⟩, left, right, by decide, declared, named, declaredToo, namedToo⟩
  obtain ⟨exactly, anyOrder⟩ := matching .getter "get_Size" "Shop.Shelf::get_Size()"
  have same : [(⟨3⟩ : MemberId), ⟨2⟩, ⟨1⟩, ⟨0⟩].Perm entry.members.toList := by
    rw [beq_iff_eq.mp members]
    decide
  exact ⟨formed, unlinked, unchanged, ((exactly ⟨1⟩).mp sized).imp_right And.right,
    (anyOrder entry _ found same).trans sized⟩

end MemberGraph
