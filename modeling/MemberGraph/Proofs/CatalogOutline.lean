import MemberGraph.Proofs.Outline

/-!
The outline of a type in a catalog. Reading dependencies, links and searches by full names gives the
same answers as the catalog gives by ids, and an extraction leaves the outlines of defined types as
they are.
-/

set_option autoImplicit false

namespace MemberGraph

private theorem Selection.unique?_map {α β : Type} (change : α → β) (values : List α) :
    (among (values.map change)).unique? = (among values).unique?.map change := by
  match values with
  | [] => rfl
  | [_] => rfl
  | _ :: _ :: _ => rfl

namespace Catalog

/-! ## Dependencies -/

def memberName? (catalog : Catalog) (id : MemberId) : Option String :=
  (catalog.member? id).map (·.fullName)

def edge? (catalog : Catalog) (dependency : Dependency) : Option NamedEdge := do
  let origin ← catalog.memberName? dependency.origin
  let used ← catalog.named? dependency
  return ⟨used.kind, origin, used.target⟩

/-- The dependencies are, by names, the given edges; none leads out of the catalog. -/
def Spells (catalog : Catalog) (dependencies : List Dependency) (edges : List NamedEdge) : Prop :=
  dependencies.map catalog.edge? = edges.map some

section Spelling

variable {catalog old new : Catalog}

theorem Spells.nil : catalog.Spells [] [] := rfl

theorem Spells.append {first second : List Dependency} {edges others : List NamedEdge}
    (spells : catalog.Spells first edges) (spellsToo : catalog.Spells second others) :
    catalog.Spells (first ++ second) (edges ++ others) := by
  unfold Spells at *
  simp only [List.map_append, spells, spellsToo]

theorem Spells.unique {dependencies : List Dependency} {edges others : List NamedEdge}
    (spells : catalog.Spells dependencies edges) (spellsToo : catalog.Spells dependencies others) :
    edges = others :=
  List.map_injective_iff.mpr (fun _ _ => Option.some.inj) (spells.symm.trans spellsToo)

theorem Extends.memberName? (extended : old.Extends new) {id : MemberId} {name : String}
    (named : old.memberName? id = some name) : new.memberName? id = some name := by
  obtain ⟨member, found, rfl⟩ := Option.map_eq_some_iff.mp named
  obtain ⟨later, there, memberExtended⟩ := extended.member? found
  simp [Catalog.memberName?, there, memberExtended.fullName]

theorem Extends.named? (extended : old.Extends new) {dependency : Dependency}
    {use : NamedDependency} (named : old.named? dependency = some use) :
    new.named? dependency = some use := by
  cases dependency with
  | onType kind origin target =>
      obtain ⟨entry, found, rfl⟩ := Option.map_eq_some_iff.mp named
      obtain ⟨later, there, entryExtended⟩ := extended.type? found
      simp [Catalog.named?, there, entryExtended.fullName]
  | call origin target =>
      obtain ⟨member, found, rfl⟩ := Option.map_eq_some_iff.mp named
      obtain ⟨later, there, memberExtended⟩ := extended.member? found
      simp [Catalog.named?, there, memberExtended.fullName]

theorem edge?_eq_some_iff {dependency : Dependency} {edge : NamedEdge} :
    catalog.edge? dependency = some edge ↔
      catalog.memberName? dependency.origin = some edge.origin ∧
        catalog.named? dependency = some ⟨edge.kind, edge.target⟩ := by
  cases origin : catalog.memberName? dependency.origin with
  | none => simp [edge?, origin]
  | some name =>
      cases used : catalog.named? dependency with
      | none => simp [edge?, origin, used]
      | some use =>
          cases edge
          cases use
          simp only [edge?, origin, used, Option.bind_eq_bind, Option.bind_some, Option.pure_def,
            Option.some.injEq, NamedEdge.mk.injEq, NamedDependency.mk.injEq]
          exact ⟨fun ⟨kind, name, target⟩ => ⟨name, kind, target⟩,
            fun ⟨name, kind, target⟩ => ⟨kind, name, target⟩⟩

theorem Extends.edge? (extended : old.Extends new) {dependency : Dependency} {edge : NamedEdge}
    (spelled : old.edge? dependency = some edge) : new.edge? dependency = some edge := by
  obtain ⟨origin, used⟩ := edge?_eq_some_iff.mp spelled
  exact edge?_eq_some_iff.mpr ⟨extended.memberName? origin, extended.named? used⟩

theorem Spells.extended (extended : old.Extends new) {dependencies : List Dependency}
    {edges : List NamedEdge} (spells : old.Spells dependencies edges) :
    new.Spells dependencies edges := by
  unfold Spells at *
  induction dependencies generalizing edges with
  | nil => exact spells
  | cons dependency rest ih =>
      cases edges with
      | nil => cases spells
      | cons edge others =>
          obtain ⟨first, further⟩ := List.cons.inj spells
          simp only [List.map_cons, extended.edge? first, ih further]

theorem Reads.spells {origin : MemberId} {member : Member} {dependencies : List Dependency}
    {uses : List NamedDependency} (reads : catalog.Reads origin dependencies uses)
    (found : catalog.member? origin = some member) :
    catalog.Spells dependencies (uses.map fun use => ⟨use.kind, member.fullName, use.target⟩) := by
  obtain ⟨named, origins⟩ := reads
  unfold Spells
  induction dependencies generalizing uses with
  | nil =>
      cases uses with
      | nil => rfl
      | cons use others => cases named
  | cons dependency rest ih =>
      cases uses with
      | nil => cases named
      | cons use others =>
          obtain ⟨first, further⟩ := List.cons.inj named
          have own := origins dependency (by simp)
          have spelled : catalog.edge? dependency = some ⟨use.kind, member.fullName, use.target⟩ :=
            edge?_eq_some_iff.mpr ⟨by simp [memberName?, own, found], first⟩
          simp only [List.map_cons, spelled,
            ih further fun other there => origins other (List.mem_cons_of_mem _ there)]

theorem Knows.edge?_isSome {dependency : Dependency} (known : catalog.Knows dependency) :
    (catalog.edge? dependency).isSome := by
  cases dependency with
  | onType use origin target =>
      obtain ⟨member, found⟩ := hasMember_iff.mp known.1
      obtain ⟨entry, there⟩ := hasType_iff.mp known.2
      simp [Catalog.edge?, memberName?, named?, Dependency.origin, found, there]
  | call origin target =>
      obtain ⟨member, found⟩ := hasMember_iff.mp known.1
      obtain ⟨called, there⟩ := hasMember_iff.mp known.2
      simp [Catalog.edge?, memberName?, named?, Dependency.origin, found, there]

theorem spells_filterMap {dependencies : List Dependency}
    (known : ∀ dependency ∈ dependencies, catalog.Knows dependency) :
    catalog.Spells dependencies (dependencies.filterMap catalog.edge?) := by
  unfold Spells
  induction dependencies with
  | nil => rfl
  | cons dependency rest ih =>
      obtain ⟨edge, spelled⟩ := Option.isSome_iff_exists.mp (known dependency (by simp)).edge?_isSome
      rw [List.filterMap_cons_some spelled, List.map_cons, List.map_cons, spelled,
        ih fun other there => known other (List.mem_cons_of_mem _ there)]

def edgesAt (catalog : Catalog) (id : MemberId) : List NamedEdge :=
  (Analysis.recordedDependencies catalog id).filterMap catalog.edge?

theorem WellFormed.spells_edgesAt (formed : catalog.WellFormed) (id : MemberId) :
    catalog.Spells (Analysis.recordedDependencies catalog id) (catalog.edgesAt id) := by
  refine spells_filterMap fun dependency there => ?_
  unfold Analysis.recordedDependencies at there
  cases found : catalog.member? id with
  | none => simp [found] at there
  | some member =>
      rw [found, Option.elim_some] at there
      exact (formed.knowsMember found).dependencies dependency (Array.mem_toList_iff.mp there)

end Spelling

/-! ## Storage -/

def storage (catalog : Catalog) : Storage := fun property =>
  ((catalog.memberNamed? property).bind catalog.backingField?).bind catalog.memberName?

section Storage

variable {catalog old new : Catalog}

theorem storage_eq (formed : catalog.WellFormed) {id : MemberId} {member : Member}
    (found : catalog.member? id = some member) :
    catalog.storage member.fullName = (catalog.backingField? id).bind catalog.memberName? := by
  simp only [storage, formed.memberNamed?_iff.mpr ⟨member, found, rfl⟩, Option.bind_some]

theorem backingField?_eq_some_iff {property field : MemberId} :
    catalog.backingField? property = some field ↔ ∃ member links,
      catalog.member? property = some member ∧ member.property? = some links ∧
        links.backingField = some field := by
  simp only [backingField?, Option.bind_eq_some_iff, linksOf?_eq_some_iff]
  constructor
  · rintro ⟨links, ⟨member, found, isProperty⟩, stored⟩
    exact ⟨member, links, found, isProperty, stored⟩
  · rintro ⟨member, links, found, isProperty, stored⟩
    exact ⟨links, ⟨member, found, isProperty⟩, stored⟩

theorem Paired.field {property field : MemberId} (paired : catalog.Paired)
    (stored : catalog.backingField? property = some field) :
    ∃ member, catalog.member? field = some member ∧ member.isField := by
  obtain ⟨member, found, backed⟩ := Option.bind_eq_some_iff.mp ((paired property field).mp stored)
  exact ⟨member, found, Member.isField_of_backedProperty? backed⟩

theorem storage_isSome (formed : catalog.WellFormed) (paired : catalog.Paired) {id : MemberId}
    {member : Member} (found : catalog.member? id = some member) :
    (catalog.storage member.fullName).isSome = (catalog.backingField? id).isSome := by
  rw [storage_eq formed found]
  cases stored : catalog.backingField? id with
  | none => rfl
  | some field =>
      obtain ⟨other, there, _⟩ := paired.field stored
      simp [memberName?, there]

theorem storage_kept (extended : old.Extends new) (formed : old.WellFormed)
    (formedNew : new.WellFormed) (paired : old.Paired)
    (kept : ∀ id, new.backingField? id = old.backingField? id) : new.storage = old.storage := by
  funext name
  cases named : old.memberNamed? name with
  | some id =>
      simp only [storage, named, extended.memberNamed? named, Option.bind_some, kept]
      cases stored : old.backingField? id with
      | none => rfl
      | some field =>
          obtain ⟨member, found, _⟩ := paired.field stored
          have before : old.memberName? field = some member.fullName := by
            simp [memberName?, found]
          simp only [Option.bind_some, before, extended.memberName? before]
  | none =>
      cases namedNew : new.memberNamed? name with
      | none => simp [storage, named, namedNew]
      | some id =>
          obtain ⟨later, there, rfl⟩ := formedNew.memberNamed?_iff.mp namedNew
          have unlinked : old.backingField? id = none := by
            cases stored : old.backingField? id with
            | none => rfl
            | some field =>
                obtain ⟨member, _, found, _⟩ := backingField?_eq_some_iff.mp stored
                obtain ⟨other, same, memberExtended⟩ := extended.member? found
                rw [there] at same
                cases same
                have namedToo := formed.memberNamed?_iff.mpr
                  ⟨member, found, memberExtended.fullName.symm⟩
                rw [named] at namedToo
                cases namedToo
          simp [storage, named, namedNew, kept, unlinked]

theorem storage_linkBacking (formed : catalog.WellFormed) {property field : MemberId}
    {links : PropertyLinks} {owner stored : Member}
    (allowed : catalog.mayBack field property) (linked : catalog.linksOf? property = some links)
    (found : catalog.member? property = some owner) (fieldFound : catalog.member? field = some stored) :
    (catalog.linkBacking property field).2.storage =
      Function.update catalog.storage owner.fullName (some stored.fullName) := by
  have updated : catalog.Updated (catalog.linkBacking property field).2 :=
    updated_linkBacking property field
  have names : ∀ id, (catalog.linkBacking property field).2.memberName? id =
      catalog.memberName? id := by
    intro id
    cases before : catalog.member? id with
    | some member =>
        obtain ⟨later, there, extended⟩ := updated.member? before
        simp [memberName?, before, there, extended.fullName]
    | none =>
        cases after : (catalog.linkBacking property field).2.member? id with
        | none => simp [memberName?, before, after]
        | some later =>
            obtain ⟨member, there, _⟩ := updated.member?_before after
            rw [before] at there
            cases there
  funext name
  simp only [storage, updated.memberNamed?]
  cases named : catalog.memberNamed? name with
  | none =>
      have other : name ≠ owner.fullName := by
        rintro rfl
        rw [formed.memberNamed?_iff.mpr ⟨owner, found, rfl⟩] at named
        cases named
      simp [Function.update_of_ne other, storage, named]
  | some id =>
      obtain ⟨member, there, rfl⟩ := formed.memberNamed?_iff.mp named
      simp only [Option.bind_some, backingField?_linkBacking allowed linked]
      by_cases same : property = id
      · subst same
        rw [found] at there
        cases there
        rw [if_pos rfl, Option.bind_some, names, Function.update_self]
        simp [memberName?, fieldFound]
      · have other : member.fullName ≠ owner.fullName := fun equal =>
          same (formed.member?_inj there found equal).symm
        rw [if_neg same, Function.update_of_ne other, storage_eq formed there]
        congr 1
        exact funext names

end Storage

/-! ## Outlines -/

def fieldOutline (catalog : Catalog) (member : Member) : FieldOutline where
  name := member.name
  fullName := member.fullName
  edges := member.dependencies.toList.filterMap catalog.edge?

def propertyOutline (catalog : Catalog) (member : Member) : PropertyOutline where
  name := member.name
  fullName := member.fullName
  getter := (member.property?.bind (·.getter)).bind catalog.memberName?
  setter := (member.property?.bind (·.setter)).bind catalog.memberName?

/-- The type `on` as an extraction under a policy sees it. -/
def outline (catalog : Catalog) (policy : CallPolicy) (on : TypeId) : Outline where
  typeName := (catalog.type? on).elim "" (·.fullName)
  fields := (catalog.declaredFields on).map catalog.fieldOutline
  properties := (catalog.declaredProperties on).map catalog.propertyOutline
  declares name := (catalog.methodNamed? on name).isSome
  resolves := catalog.resolvable policy

section Searches

variable {catalog : Catalog} {policy : CallPolicy} {on : TypeId}

theorem outline_typeName {entry : TypeEntry} (found : catalog.type? on = some entry) :
    (catalog.outline policy on).typeName = entry.fullName := by
  simp [outline, found]

theorem WellFormed.mem_declaredMembers (formed : catalog.WellFormed) {id : MemberId}
    {member : Member} (found : catalog.member? id = some member) :
    member ∈ catalog.declaredMembers member.declaringType := by
  obtain ⟨entry, there⟩ := hasType_iff.mp (formed.knowsMember found).declaringType
  simp only [declaredMembers, there]
  refine List.mem_filterMap.mpr ⟨id, Array.mem_toList_iff.mpr ?_, found⟩
  exact (formed.mem_members_iff there).mpr ⟨member, found, rfl⟩

private theorem unique?_outline {α : Type} (sound : catalog.Sound) {members : List Member}
    (declared : ∀ member ∈ members, member ∈ catalog.declaredMembers on) (outline : Member → α)
    {fits : Member → Bool} {fitsToo : α → Bool} (agree : ∀ member, fitsToo (outline member) = fits member) :
    (Selection.among ((members.map outline).filter fitsToo)).unique? =
      ((Selection.among ((members.filter fits).map (·.id))).unique?.bind catalog.member?).map
        outline := by
  have same : (members.map outline).filter fitsToo = (members.filter fits).map outline := by
    rw [List.filter_map, show fitsToo ∘ outline = fits from funext agree]
  rw [same, Selection.unique?_map, Selection.unique?_map]
  cases chosen : (Selection.among (members.filter fits)).unique? with
  | none => rfl
  | some member =>
      have listed := List.mem_of_mem_filter (Selection.mem_of_unique? chosen)
      simp [(Catalog.mem_declaredMembers sound (declared member listed)).1]

private theorem outline_property? (sound : catalog.Sound) {fits : Member → Bool}
    {fitsToo : PropertyOutline → Bool}
    (agree : ∀ member, fitsToo (catalog.propertyOutline member) = fits member) :
    (catalog.outline policy on).property? fitsToo =
      ((Selection.among (((catalog.declaredProperties on).filter fits).map (·.id))).unique?.bind
        catalog.member?).map catalog.propertyOutline :=
  unique?_outline sound (fun _ there => List.mem_of_mem_filter there) _ agree

private theorem outline_field? (sound : catalog.Sound) (name : String) :
    (catalog.outline policy on).field? name =
      ((catalog.fieldNamed on name).unique?.bind catalog.member?).map catalog.fieldOutline :=
  unique?_outline sound (fun _ there => List.mem_of_mem_filter there) _ fun _ => rfl

theorem outline_implemented? (sound : catalog.Sound) (convention : Convention)
    (name fullName : String) :
    (catalog.outline policy on).implemented? convention name fullName =
      ((catalog.implemented? on convention name fullName).bind catalog.member?).map
        catalog.propertyOutline := by
  have byName : ∀ candidate, (catalog.outline policy on).property? (·.name == candidate) =
      ((catalog.propertyNamed on candidate).unique?.bind catalog.member?).map
        catalog.propertyOutline := fun candidate => outline_property? sound fun _ => rfl
  have byEnding : ∀ candidate, (catalog.outline policy on).property?
        (FullName.endsInSegment ·.fullName candidate) =
      ((catalog.propertyEnding on candidate).unique?.bind catalog.member?).map
        catalog.propertyOutline := fun candidate => outline_property? sound fun _ => rfl
  have first : (convention.property? name).bind
        (fun candidate => (catalog.outline policy on).property? (·.name == candidate)) =
      (((convention.property? name).bind fun candidate =>
        (catalog.propertyNamed on candidate).unique?).bind catalog.member?).map
          catalog.propertyOutline := by
    cases convention.property? name with
    | none => rfl
    | some candidate => exact byName candidate
  have second : (convention.property? (FullName.memberName fullName)).bind
        (fun candidate => (catalog.outline policy on).property?
          (FullName.endsInSegment ·.fullName candidate)) =
      (((convention.property? (FullName.memberName fullName)).bind fun candidate =>
        (catalog.propertyEnding on candidate).unique?).bind catalog.member?).map
          catalog.propertyOutline := by
    cases convention.property? (FullName.memberName fullName) with
    | none => rfl
    | some candidate => exact byEnding candidate
  unfold Outline.implemented? Catalog.implemented?
  rw [first, second]
  cases found : (convention.property? name).bind fun candidate =>
      (catalog.propertyNamed on candidate).unique? with
  | none => rfl
  | some id =>
      obtain ⟨candidate, _, chosen⟩ := Option.bind_eq_some_iff.mp found
      obtain ⟨member, there, _⟩ := declaredProperty_of_unique? sound _ chosen
      simp [there]

theorem outline_tied? (sound : catalog.Sound) (method : MethodDefinition) :
    (catalog.outline policy on).tied? method =
      ((catalog.tied? on method).bind catalog.member?).map catalog.propertyOutline := by
  unfold Outline.tied? tied?
  cases method.form.convention? with
  | none => rfl
  | some convention =>
      cases method.body with
      | none => rfl
      | some body => exact outline_implemented? sound convention method.name method.fullName

end Searches

/-! ## Links -/

section Links

variable {catalog : Catalog} {policy : CallPolicy} {on : TypeId}

private theorem mem_declaredProperties (formed : catalog.WellFormed) {member : Member} :
    member ∈ catalog.declaredProperties on ↔
      catalog.member? member.id = some member ∧ member.isProperty ∧ member.declaringType = on := by
  constructor
  · intro there
    obtain ⟨listed, isProperty⟩ := List.mem_filter.mp there
    obtain ⟨found, declared⟩ := Catalog.mem_declaredMembers formed.sound listed
    exact ⟨found, isProperty, declared⟩
  · rintro ⟨found, isProperty, rfl⟩
    exact List.mem_filter.mpr ⟨formed.mem_declaredMembers found, isProperty⟩

theorem mem_declaredFields (formed : catalog.WellFormed) {member : Member} :
    member ∈ catalog.declaredFields on ↔
      catalog.member? member.id = some member ∧ member.isField ∧ member.declaringType = on := by
  constructor
  · intro there
    obtain ⟨listed, isField⟩ := List.mem_filter.mp there
    obtain ⟨found, declared⟩ := Catalog.mem_declaredMembers formed.sound listed
    exact ⟨found, isField, declared⟩
  · rintro ⟨found, isField, rfl⟩
    exact List.mem_filter.mpr ⟨formed.mem_declaredMembers found, isField⟩

theorem backingField?_of_storage (formed : catalog.WellFormed) {property field : MemberId}
    {owner stored : Member} (found : catalog.member? property = some owner)
    (fieldFound : catalog.member? field = some stored)
    (named : catalog.storage owner.fullName = some stored.fullName) :
    catalog.backingField? property = some field := by
  rw [storage_eq formed found] at named
  obtain ⟨other, backing, same⟩ := Option.bind_eq_some_iff.mp named
  obtain ⟨member, there, fullName⟩ := Option.map_eq_some_iff.mp same
  rw [backing, formed.member?_inj there fieldFound fullName]

private theorem WellFormed.operandFields (formed : catalog.WellFormed) (on : TypeId)
    (operands : List FieldReference) :
    ∃ members : List Member, (∀ member ∈ members, member ∈ catalog.declaredFields on) ∧
      operands.filterMap (fun field => (catalog.fieldNamed on field.name).unique?) =
        members.map (·.id) ∧
      operands.filterMap (fun field => ((catalog.fieldNamed on field.name).unique?.bind
        catalog.member?).map catalog.fieldOutline) = members.map catalog.fieldOutline := by
  induction operands with
  | nil => exact ⟨[], by simp, rfl, rfl⟩
  | cons operand rest ih =>
      obtain ⟨members, listed, ids, outlines⟩ := ih
      cases chosen : (catalog.fieldNamed on operand.name).unique? with
      | none =>
          refine ⟨members, listed, ?_, ?_⟩
          · simp only [List.filterMap_cons, chosen, ids]
          · simp only [List.filterMap_cons, chosen, Option.bind_none, Option.map_none, outlines]
      | some id =>
          obtain ⟨member, filtered, rfl⟩ := List.mem_map.mp (Selection.mem_of_unique? chosen)
          have there := List.mem_of_mem_filter filtered
          have found := ((mem_declaredFields formed).mp there).1
          refine ⟨member :: members, ?_, ?_, ?_⟩
          · intro other otherThere
            rcases List.mem_cons.mp otherThere with rfl | otherThere
            · exact there
            · exact listed other otherThere
          · simp only [List.filterMap_cons, chosen, ids, List.map_cons]
          · simp only [List.filterMap_cons, chosen, found, Option.bind_some, Option.map_some, outlines,
              List.map_cons]

variable (formed : catalog.WellFormed) (paired : catalog.Paired) (together : catalog.LinkedTogether)
  {property : MemberId} {owner : Member} (found : catalog.member? property = some owner)
  (isProperty : owner.isProperty) (declared : owner.declaringType = on)
include formed paired together found

private theorem outline_mayStore {field : Member} (listed : field ∈ catalog.declaredFields on) :
    (catalog.outline policy on).mayStore catalog.storage owner.fullName field.fullName =
      catalog.mayBack field.id property := by
  obtain ⟨fieldFound, isField, onType⟩ := (mem_declaredFields formed).mp listed
  have byName : (catalog.outline policy on).mayStore catalog.storage owner.fullName
      field.fullName ↔ ∀ other ∈ catalog.declaredProperties on,
        catalog.storage other.fullName = some field.fullName → other.fullName = owner.fullName := by
    simp [Outline.mayStore, outline, propertyOutline, or_iff_not_imp_left]
  rw [Bool.eq_iff_iff, byName, mayBack_iff]
  constructor
  · intro free
    refine ⟨field, fieldFound, isField, fun other backed => ?_⟩
    have backing : catalog.backingField? other = some field.id :=
      (paired other field.id).mpr (by simp [Catalog.backedProperty?, fieldFound, backed])
    obtain ⟨left, right, leftFound, rightFound, sameType⟩ := together other field.id backing
    obtain ⟨member, links, there, isLinked, _⟩ := backingField?_eq_some_iff.mp backing
    rw [leftFound] at there
    rw [fieldFound] at rightFound
    cases there
    cases rightFound
    have ownId := formed.memberId leftFound
    have listedToo : left ∈ catalog.declaredProperties on := (mem_declaredProperties formed).mpr
      ⟨by rw [ownId, leftFound], by simp [Member.isProperty, isLinked], sameType.trans onType⟩
    have stored : catalog.storage left.fullName = some field.fullName := by
      rw [storage_eq formed leftFound, backing]
      simp [memberName?, fieldFound]
    exact formed.member?_inj leftFound found (free left listedToo stored)
  · rintro ⟨member, there, _, owned⟩ other otherListed stored
    rw [fieldFound] at there
    cases there
    obtain ⟨otherFound, _, _⟩ := (mem_declaredProperties formed).mp otherListed
    have backing := backingField?_of_storage formed otherFound fieldFound stored
    obtain ⟨member, there, backed⟩ := Option.bind_eq_some_iff.mp ((paired _ _).mp backing)
    rw [fieldFound] at there
    cases there
    have same := owned other.id backed
    rw [same, found] at otherFound
    cases otherFound
    rfl

theorem outline_candidate? (defined : catalog.Defined on) (body : MethodBody) :
    (catalog.outline policy on).candidate? catalog.storage owner.fullName body =
      ((Analysis.storageCandidate? catalog on property body).bind catalog.member?).map
        catalog.fieldOutline := by
  obtain ⟨entry, entryFound, _⟩ := defined
  simp only [Outline.candidate?, Analysis.storageCandidate?, entryFound, outline_typeName entryFound,
    Option.bind_eq_bind, Option.bind_some, outline_field? formed.sound]
  generalize (body.instructions.filterMap Instruction.field?).filter
    (·.declaringType.fullName == entry.fullName) = operands
  obtain ⟨members, listed, ids, outlines⟩ := formed.operandFields on operands
  have usable : (members.map catalog.fieldOutline).filter
        ((catalog.outline policy on).mayStore catalog.storage owner.fullName ·.fullName) =
      (members.filter fun member => catalog.mayBack member.id property).map
        catalog.fieldOutline := by
    rw [List.filter_map]
    congr 1
    refine List.filter_congr fun member there => ?_
    exact outline_mayStore formed paired together found (listed member there)
  rw [ids, outlines, usable, List.filter_map, List.getLast?_map, List.getLast?_map]
  cases chosen : (members.filter fun member => catalog.mayBack member.id property).getLast? with
  | none => simp [Function.comp_def, chosen]
  | some member =>
      have there := listed member (List.mem_of_mem_filter (List.mem_of_getLast? chosen))
      simp [Function.comp_def, chosen, ((mem_declaredFields formed).mp there).1]

include declared

theorem outline_inherited :
    catalog.Spells (Analysis.inherited catalog property)
      ((catalog.outline policy on).inherited catalog.storage owner.fullName) := by
  unfold Analysis.inherited Outline.inherited
  rw [storage_eq formed found]
  cases backing : catalog.backingField? property with
  | none => exact Spells.nil
  | some field =>
      obtain ⟨left, stored, leftFound, fieldFound, sameType⟩ := together property field backing
      obtain ⟨member, there, isField⟩ := paired.field backing
      rw [found] at leftFound
      rw [fieldFound] at there
      cases leftFound
      cases there
      have ownId := formed.memberId fieldFound
      have listed : stored ∈ catalog.declaredFields on := (mem_declaredFields formed).mpr
        ⟨by rw [ownId, fieldFound], isField, sameType.symm.trans declared⟩
      have outlined : (catalog.outline policy on).fields.find? (·.fullName == stored.fullName) =
          some (catalog.fieldOutline stored) := by
        rw [outline, List.find?_map]
        have first : (catalog.declaredFields on).find?
            (fun other => other.fullName == stored.fullName) = some stored := by
          cases chosen : (catalog.declaredFields on).find?
              (fun other => other.fullName == stored.fullName) with
          | none => simpa using List.find?_eq_none.mp chosen stored listed
          | some other =>
              have sameName := List.find?_some chosen
              obtain ⟨otherFound, _⟩ :=
                (mem_declaredFields formed).mp (List.mem_of_find?_eq_some chosen)
              have same := formed.member?_inj otherFound fieldFound (by simpa using sameName)
              rw [same, fieldFound] at otherFound
              rw [otherFound]
        exact congrArg (Option.map catalog.fieldOutline) first
      simp only [Option.bind_some, memberName?, fieldFound, Option.map_some, Option.elim_some,
        outlined, Analysis.recordedDependencies]
      exact spells_filterMap fun dependency recorded =>
        (formed.knowsMember fieldFound).dependencies dependency (Array.mem_toList_iff.mp recorded)

end Links

theorem outline_receiver {catalog : Catalog} (formed : catalog.WellFormed) {property : MemberId}
    {owner : Member} (found : catalog.member? property = some owner) {method : MemberId}
    {definition : MethodDefinition}
    (named : catalog.memberName? method = some definition.fullName) :
    catalog.memberName? (Analysis.receiver catalog property method definition.form) =
      some ((catalog.propertyOutline owner).receiver definition) := by
  have accessor : ∀ linked : Option MemberId,
      (∀ id, linked = some id → ∃ member, catalog.member? id = some member) →
      catalog.memberName? (linked.getD method) =
        some ((linked.bind catalog.memberName?).getD definition.fullName) := by
    intro linked known
    cases linked with
    | none => exact named
    | some id =>
        obtain ⟨member, there⟩ := known id rfl
        simp [memberName?, there]
  have known : ∀ links, owner.property? = some links → ∀ id,
      links.getter = some id ∨ links.setter = some id → ∃ member, catalog.member? id = some member := by
    intro links isProperty id linked
    obtain ⟨member, there, _⟩ := formed.ownAccessors found links isProperty id linked
    exact ⟨member, there⟩
  unfold Analysis.receiver PropertyOutline.receiver propertyOutline linksOf?
  simp only [found, Option.bind_eq_bind, Option.bind_some]
  cases isProperty : owner.property? with
  | none =>
      simp only [Option.getD_none, Option.bind_none, ite_self]
      exact accessor none (by simp)
  | some links =>
      simp only [Option.getD_some, Option.bind_some]
      split
      · exact accessor links.getter fun id linked => known links isProperty id (.inl linked)
      · exact accessor links.setter fun id linked => known links isProperty id (.inr linked)

/-! ## Growth -/

section Shown

variable {old new : Catalog}

theorem Extends.propertyOutline (extended : old.Extends new) (formed : old.WellFormed)
    {id : MemberId} {before after : Member} (found : old.member? id = some before)
    (memberExtended : before.Extends after) :
    new.propertyOutline after = old.propertyOutline before := by
  cases isProperty : before.property? with
  | none =>
      have isPropertyNew : after.property? = none := by
        have same := memberExtended.isProperty
        rw [Member.isProperty, Member.isProperty, isProperty] at same
        simpa using same
      simp [Catalog.propertyOutline, memberExtended.name, memberExtended.fullName, isProperty,
        isPropertyNew]
  | some links =>
      obtain ⟨later, isPropertyNew, getter, setter⟩ := memberExtended.property? isProperty
      have accessor : ∀ linked : Option MemberId, (∀ id, linked = some id →
          links.getter = some id ∨ links.setter = some id) →
          linked.bind new.memberName? = linked.bind old.memberName? := by
        intro linked own
        cases linked with
        | none => rfl
        | some id =>
            obtain ⟨method, there, _⟩ := formed.ownAccessors found links isProperty id (own id rfl)
            have named : old.memberName? id = some method.fullName := by simp [Catalog.memberName?, there]
            simp only [Option.bind_some, named, extended.memberName? named]
      simp only [Catalog.propertyOutline, memberExtended.name, memberExtended.fullName, isProperty,
        isPropertyNew, Option.bind_some, getter, setter, PropertyOutline.mk.injEq, true_and]
      exact ⟨accessor links.getter fun _ => .inl, accessor links.setter fun _ => .inr⟩

theorem Extends.fieldOutline (extended : old.Extends new) (formed : old.WellFormed)
    {id : MemberId} {before after : Member} (found : old.member? id = some before)
    (memberExtended : before.Extends after)
    (same : after.dependencies.toList = before.dependencies.toList) :
    new.fieldOutline after = old.fieldOutline before := by
  simp only [Catalog.fieldOutline, memberExtended.name, memberExtended.fullName, same,
    FieldOutline.mk.injEq, true_and]
  refine List.filterMap_congr fun dependency recorded => ?_
  have known := (formed.knowsMember found).dependencies dependency (Array.mem_toList_iff.mp recorded)
  obtain ⟨edge, spelled⟩ := Option.isSome_iff_exists.mp known.edge?_isSome
  rw [spelled, extended.edge? spelled]

theorem Grows.map_declaredMembers {policy : CallPolicy} {on : TypeId} {α : Type}
    {fits : Member → Bool} {shown shownNew : Member → α} (grows : Grows policy old new)
    (sound : old.Sound) (defined : old.Defined on)
    (kept : ∀ {before after : Member}, before.Extends after → fits after = fits before)
    (same : ∀ {before after : Member}, before ∈ old.declaredMembers on → before.Extends after →
      after ∈ new.declaredMembers on → fits before → shownNew after = shown before) :
    ((new.declaredMembers on).filter fits).map shownNew =
      ((old.declaredMembers on).filter fits).map shown := by
  have extended := grows.declaredMembers sound defined
  generalize old.declaredMembers on = before at extended same
  generalize new.declaredMembers on = after at extended same
  induction extended with
  | nil => rfl
  | @cons first later rest others firstExtended _ ih =>
      have further := ih fun there extended thereNew =>
        same (List.mem_cons_of_mem _ there) extended (List.mem_cons_of_mem _ thereNew)
      simp only [List.filter_cons, kept firstExtended]
      split
      · next fitting =>
          rw [List.map_cons, List.map_cons, further,
            same (List.mem_cons_self ..) firstExtended (List.mem_cons_self ..) fitting]
      · exact further

end Shown

/-- An extraction leaves the outlines of defined types alone. -/
theorem outline_grows {policy : CallPolicy} {old new : Catalog} {on : TypeId}
    (grows : Grows policy old new) (ready : Analysis.Ready old on)
    (readyNew : Analysis.Ready new on) :
    new.outline policy on = old.outline policy on := by
  have formed := ready.formed
  have foundBefore : ∀ {member}, member ∈ old.declaredMembers on →
      old.member? member.id = some member := fun there =>
    (Catalog.mem_declaredMembers formed.sound there).1
  obtain ⟨entry, entryFound, notStub⟩ := ready.defined
  unfold outline
  congr 1
  · rw [entryFound, grows.type?_of_defined entryFound notStub]
  · refine grows.map_declaredMembers formed.sound ready.defined (fun extended => extended.isField) ?_
    intro before after there extended thereNew isField
    have found := foundBefore there
    have foundNew := (Catalog.mem_declaredMembers readyNew.formed.sound thereNew).1
    have once := ready.fieldsOnce before.id before found isField
    have onceNew := readyNew.fieldsOnce after.id after foundNew (by rwa [extended.isField])
    simp only [Analysis.recordedCount, Analysis.recordedDependencies, found, foundNew,
      Option.elim_some] at once onceNew
    exact grows.extends.fieldOutline formed found extended
      (extended.dependencies.eq_of_length (once.trans onceNew.symm)).symm
  · refine grows.map_declaredMembers formed.sound ready.defined
      (fun extended => extended.isProperty) ?_
    intro before after there extended _ _
    exact grows.extends.propertyOutline formed (foundBefore there) extended
  · funext name
    rw [grows.methodNamed? formed (.inl ready.defined)]
  · exact funext (grows.resolvable formed)

end Catalog

end MemberGraph
