import MemberGraph.Proofs.Backing
import MemberGraph.Proofs.Operands
import MemberGraph.Proofs.Stability

/-!
What the extraction of a method records, and for whom. Looking types and methods up records nothing.
A method gets its signature, the types in its body and its calls; an accessor's calls go to its
property instead, with what the backing field depends on, and calls whose results are stored go to
the properties that are stored there.
-/

set_option autoImplicit false

namespace MemberGraph

/-! ## Reading by names -/

structure NamedDependency where
  kind : DependencyKind
  target : String
deriving DecidableEq, Repr

namespace Catalog

def named? (catalog : Catalog) : Dependency → Option NamedDependency
  | .onType use _ target => (catalog.type? target).map fun entry => ⟨.typeUse use, entry.fullName⟩
  | .call _ target => (catalog.member? target).map fun member => ⟨.call, member.fullName⟩

/-- The dependencies of a member, as a catalog names them. -/
structure Reads (catalog : Catalog) (origin : MemberId) (dependencies : List Dependency)
    (uses : List NamedDependency) : Prop where
  named : dependencies.map catalog.named? = uses.map some
  origins : ∀ dependency ∈ dependencies, dependency.origin = origin

section Reads

variable {catalog : Catalog} {origin : MemberId}

theorem Reads.nil : catalog.Reads origin [] [] := ⟨rfl, fun _ there => by cases there⟩

theorem Reads.append {first second : List Dependency} {uses others : List NamedDependency}
    (reads : catalog.Reads origin first uses) (readsToo : catalog.Reads origin second others) :
    catalog.Reads origin (first ++ second) (uses ++ others) := by
  constructor
  · rw [List.map_append, List.map_append, reads.named, readsToo.named]
  · intro dependency there
    rcases List.mem_append.mp there with there | there
    · exact reads.origins dependency there
    · exact readsToo.origins dependency there

theorem Reads.length {dependencies : List Dependency} {uses : List NamedDependency}
    (reads : catalog.Reads origin dependencies uses) : dependencies.length = uses.length := by
  simpa using congrArg List.length reads.named

private theorem WellFormed.reads_type (formed : catalog.WellFormed) {name : String}
    {target : TypeId} (named : catalog.typeNamed? name = some target) (use : TypeUse) :
    catalog.Reads origin [.onType use origin target] [⟨.typeUse use, name⟩] := by
  obtain ⟨entry, found, rfl⟩ := formed.typeNamed?_iff.mp named
  exact ⟨by simp [named?, found], by simp [Dependency.origin]⟩

theorem WellFormed.reads_call (formed : catalog.WellFormed) {name : String} {target : MemberId}
    (named : catalog.memberNamed? name = some target) :
    catalog.Reads origin [.call origin target] [⟨.call, name⟩] := by
  obtain ⟨member, found, rfl⟩ := formed.memberNamed?_iff.mp named
  exact ⟨by simp [named?, found], by simp [Dependency.origin]⟩

theorem WellFormed.named?_inj (formed : catalog.WellFormed) {first second : Dependency}
    {use : NamedDependency} (named : catalog.named? first = some use)
    (namedToo : catalog.named? second = some use) (origins : first.origin = second.origin) :
    first = second := by
  cases first with
  | onType firstUse _ target =>
      obtain ⟨entry, found, rfl⟩ := Option.map_eq_some_iff.mp named
      cases second with
      | onType secondUse _ other =>
          obtain ⟨entryToo, foundToo, same⟩ := Option.map_eq_some_iff.mp namedToo
          simp only [NamedDependency.mk.injEq, DependencyKind.typeUse.injEq] at same
          have here := formed.typeNamed?_iff.mpr ⟨entry, found, rfl⟩
          have there := formed.typeNamed?_iff.mpr ⟨entryToo, foundToo, same.2⟩
          rw [here, Option.some.injEq] at there
          cases origins
          rw [same.1, there]
      | call _ other =>
          obtain ⟨_, _, same⟩ := Option.map_eq_some_iff.mp namedToo
          simp at same
  | call _ target =>
      obtain ⟨member, found, rfl⟩ := Option.map_eq_some_iff.mp named
      cases second with
      | onType secondUse _ other =>
          obtain ⟨_, _, same⟩ := Option.map_eq_some_iff.mp namedToo
          simp at same
      | call _ other =>
          obtain ⟨memberToo, foundToo, same⟩ := Option.map_eq_some_iff.mp namedToo
          simp only [NamedDependency.mk.injEq, true_and] at same
          have here := formed.memberNamed?_iff.mpr ⟨member, found, rfl⟩
          have there := formed.memberNamed?_iff.mpr ⟨memberToo, foundToo, same⟩
          rw [here, Option.some.injEq] at there
          cases origins
          rw [there]

theorem Reads.unique (formed : catalog.WellFormed) {first second : List Dependency}
    {uses : List NamedDependency} (reads : catalog.Reads origin first uses)
    (readsToo : catalog.Reads origin second uses) : first = second := by
  induction uses generalizing first second with
  | nil =>
      have none := List.map_eq_nil_iff.mp reads.named
      have noneToo := List.map_eq_nil_iff.mp readsToo.named
      rw [none, noneToo]
  | cons use uses ih =>
      obtain ⟨one, rest, rfl, named, others⟩ := List.map_eq_cons_iff.mp reads.named
      obtain ⟨two, restToo, rfl, namedToo, othersToo⟩ := List.map_eq_cons_iff.mp readsToo.named
      have same := formed.named?_inj named namedToo
        ((reads.origins one List.mem_cons_self).trans
          (readsToo.origins two List.mem_cons_self).symm)
      have further := ih ⟨others, fun dependency there =>
          reads.origins dependency (List.mem_cons_of_mem _ there)⟩
        ⟨othersToo, fun dependency there =>
          readsToo.origins dependency (List.mem_cons_of_mem _ there)⟩
      rw [same, further]

end Reads

end Catalog

namespace Analysis

open Catalog

/-! ## Elementary changes -/

def recordedCount (catalog : Catalog) (id : MemberId) : Nat :=
  (recordedDependencies catalog id).length

section Elementary

variable {catalog : Catalog}

theorem recordedDependencies_addDependencies {id : MemberId} (known : catalog.hasMember id)
    (dependencies : List Dependency) (other : MemberId) :
    recordedDependencies (catalog.addDependencies id dependencies) other =
      recordedDependencies catalog other ++ if id = other then dependencies else [] := by
  unfold recordedDependencies Catalog.addDependencies
  rw [member?_updateMember]
  split
  · next same =>
      subst same
      obtain ⟨member, found⟩ := hasMember_iff.mp known
      simp [found]
  · simp

theorem recordedDependencies_updateMember {change : Member → Member}
    (kept : ∀ member, (change member).dependencies = member.dependencies) (id : MemberId) :
    recordedDependencies (catalog.updateMember id change) = recordedDependencies catalog := by
  funext other
  unfold recordedDependencies
  rw [member?_updateMember]
  split
  · cases catalog.member? other with
    | none => rfl
    | some member => simp [kept]
  · rfl

private theorem recordedDependencies_linkBacking (property field : MemberId) :
    recordedDependencies (catalog.linkBacking property field).2 = recordedDependencies catalog := by
  refine linkBacking_induction
    (motive := fun later => recordedDependencies later = recordedDependencies catalog) ?_ rfl _ _
  intro later id change relinked before
  rw [recordedDependencies_updateMember, before]
  exact fun member => (relinked member).dependencies

private theorem recordedDependencies_addMember {key : String} {make : MemberId → Member}
    (bare : (make ⟨catalog.members.size⟩).dependencies = #[]) :
    recordedDependencies (catalog.addMember key make).2 = recordedDependencies catalog := by
  cases fresh : catalog.memberNamed? key with
  | some id => rw [addMember_of_known make fresh]
  | none =>
      funext ⟨index⟩
      unfold recordedDependencies
      rw [member?_addMember make fresh]
      split
      · next atEnd =>
          dsimp only at atEnd
          subst atEnd
          simp [bare, member?]
      · rfl

private theorem recordedDependencies_linkStorage (on : TypeId) (property : MemberId)
    (body : MethodBody) :
    recordedDependencies (linkStorage catalog on property body) = recordedDependencies catalog := by
  unfold linkStorage
  split
  · exact recordedDependencies_linkBacking _ _
  · rfl

/-- What is recorded stays at the front; if it does not become more, it stays as it is. -/
theorem recordedDependencies_of_count {old new : Catalog} (extended : old.Extends new)
    {id : MemberId} (known : old.hasMember id)
    (same : recordedCount new id = recordedCount old id) :
    recordedDependencies new id = recordedDependencies old id := by
  obtain ⟨member, found⟩ := hasMember_iff.mp known
  obtain ⟨later, there, memberExtended⟩ := extended.member? found
  simp only [recordedCount, recordedDependencies, found, there, Option.elim_some] at same ⊢
  exact (memberExtended.dependencies.eq_of_length same.symm).symm

end Elementary

/-! ## Look-ups -/

section LookUps

variable {analysis : Analysis} {policy : CallPolicy}

theorem typeFor_recorded (reference : TypeReference) :
    recordedDependencies (analysis.typeFor reference).2.catalog =
      recordedDependencies analysis.catalog := by
  cases known : analysis.catalog.typeNamed? reference.fullName with
  | some id => rw [typeFor_of_known known]
  | none =>
      rw [(typeFor_of_fresh known).2]
      rfl

private theorem typesFor_recorded (references : List TypeReference) :
    recordedDependencies (analysis.typesFor references).2.catalog =
      recordedDependencies analysis.catalog := by
  induction references generalizing analysis with
  | nil => rfl
  | cons reference rest ih => exact ih.trans (typeFor_recorded reference)

private theorem methodFor_recorded (on : TypeId) (reference : MethodReference) :
    recordedDependencies (analysis.methodFor on reference).2.catalog =
      recordedDependencies analysis.catalog := by
  cases missing : analysis.catalog.methodNamed? on reference.fullName with
  | some id => simp only [methodFor, missing]
  | none =>
      rw [methodFor_of_missing missing]
      dsimp only
      rw [recordedDependencies_addMember rfl, typesFor_recorded, typeFor_recorded]

theorem resolve_recorded (reference : MethodReference) :
    recordedDependencies (analysis.resolve policy reference).2.catalog =
      recordedDependencies analysis.catalog := by
  rcases @resolve_cases analysis policy reference with
    ⟨id, found, resolved⟩ | ⟨missing, _, resolved⟩ | ⟨missing, _, _, resolved⟩
  · rw [resolved, typeFor_recorded]
  · rw [resolved]
    dsimp only
    rw [methodFor_recorded, typeFor_recorded]
  · rw [resolved, typeFor_recorded]

theorem resolveAll_recorded (references : List MethodReference) :
    recordedDependencies (analysis.resolveAll policy references).2.catalog =
      recordedDependencies analysis.catalog := by
  induction references generalizing analysis with
  | nil => rfl
  | cons reference rest ih => exact ih.trans (resolve_recorded reference)

theorem callsTo_reads (formed : analysis.catalog.WellFormed) {later : Catalog}
    (laterFormed : later.WellFormed) (origin : MemberId) {references : List MethodReference}
    (extended : (analysis.resolveAll policy references).2.catalog.Extends later) :
    later.Reads origin (callsTo origin (analysis.resolveAll policy references).1)
      ((references.filter (analysis.catalog.resolvable policy)).map (⟨.call, ·.fullName⟩)) := by
  induction references generalizing analysis with
  | nil => exact .nil
  | cons reference rest ih =>
      have grown : Grows policy analysis.catalog (analysis.resolve policy reference).2.catalog :=
        resolve_grows formed.sound reference
      have further : Grows policy (analysis.resolve policy reference).2.catalog
          ((analysis.resolve policy reference).2.resolveAll policy rest).2.catalog :=
        resolveAll_grows (grown.sound formed.sound) rest
      have others := ih (grown.wellFormed formed) extended
      rw [show (analysis.resolve policy reference).2.catalog.resolvable policy =
        analysis.catalog.resolvable policy from funext (grown.resolvable formed)] at others
      have leads := resolve_isSome formed policy reference
      simp only [resolveAll, callsTo] at others ⊢
      cases resolved : (analysis.resolve policy reference).1 with
      | none =>
          rw [resolved] at leads
          rw [List.reduceOption_cons_of_none, List.filter_cons_of_neg (by simp [← leads])]
          exact others
      | some target =>
          rw [resolved] at leads
          have named := extended.memberNamed? (further.extends.memberNamed? (resolve_named resolved))
          rw [List.reduceOption_cons_of_some, List.filter_cons_of_pos (by simp [← leads])]
          exact (laterFormed.reads_call named).append others

theorem callsTo_length (formed : analysis.catalog.WellFormed)
    (origin : MemberId) (references : List MethodReference) :
    (callsTo origin (analysis.resolveAll policy references).1).length =
      references.countP (analysis.catalog.resolvable policy) := by
  have grown : Grows policy analysis.catalog (analysis.resolveAll policy references).2.catalog :=
    resolveAll_grows formed.sound references
  rw [(callsTo_reads formed (grown.wellFormed formed) origin (.refl _)).length, List.length_map,
    List.countP_eq_length_filter]

theorem typeUses_reads {later : Catalog} (laterFormed : later.WellFormed) (use : TypeUse)
    (origin : MemberId) {references : List TypeReference}
    (extended : (analysis.typeUses use origin references).2.catalog.Extends later) :
    later.Reads origin (analysis.typeUses use origin references).1
      (references.map (⟨.typeUse use, ·.fullName⟩)) := by
  induction references generalizing analysis with
  | nil => exact .nil
  | cons reference rest ih =>
      have further : Grows .existingOnly (analysis.typeFor reference).2.catalog
          ((analysis.typeFor reference).2.typesFor rest).2.catalog := typesFor_grows rest
      have named := extended.typeNamed? (further.extends.typeNamed? (typeFor_named reference))
      exact (laterFormed.reads_type named use).append (ih extended)

theorem typeUses_recorded (use : TypeUse) (origin : MemberId) (references : List TypeReference) :
    recordedDependencies (analysis.typeUses use origin references).2.catalog =
      recordedDependencies analysis.catalog := typesFor_recorded references

end LookUps

/-! ## Calls whose results are stored -/

def attaches (catalog : Catalog) (policy : CallPolicy) (on : TypeId) (property : MemberId)
    (call : MethodReference × FieldReference) : Bool :=
  catalog.implemented? on .field call.2.name call.2.fullName = some property &&
    catalog.resolvable policy call.1

section Attached

variable {analysis : Analysis} {policy : CallPolicy} {on : TypeId}

private theorem attachCall_count (formed : analysis.catalog.WellFormed)
    (reference : MethodReference) (field : FieldReference) (other : MemberId) :
    recordedCount (analysis.attachCall policy on reference field).2.catalog other =
      recordedCount analysis.catalog other +
        (attaches analysis.catalog policy on other (reference, field)).toNat := by
  unfold attaches
  rcases @attachCall_cases analysis policy on reference field with
    ⟨property, target, searched, found, same, resolved, _, final⟩ |
    ⟨property, searched, found, same, unresolved, _, final⟩ | ⟨missing, _, final⟩
  · have leads : analysis.catalog.resolvable policy reference := by
      rw [← same, ← resolve_isSome (same ▸ formed), resolved]
      rfl
    have known : (searched.resolve policy reference).2.catalog.hasMember property := by
      obtain ⟨member, there, _⟩ := implemented?_declared formed.sound found
      rw [← same] at there
      exact (resolve_grows (same ▸ formed.sound) reference).extends.hasMember
        (hasMember_of_member? there)
    rw [final, recordedCount, recordedDependencies_addDependencies known, resolve_recorded, same,
      List.length_append, found, leads]
    by_cases self : property = other
    · simp [self, recordedCount]
    · simp [self, recordedCount]
  · have nowhere : analysis.catalog.resolvable policy reference = false := by
      rw [← same, ← resolve_isSome (same ▸ formed), unresolved]
      rfl
    rw [final, recordedCount, resolve_recorded, same, nowhere]
    simp [recordedCount]
  · rw [final, missing]
    simp

theorem attaches_grows {old new : Catalog} (grows : Grows policy old new) (formed : old.WellFormed)
    (defined : old.Defined on) (property : MemberId) :
    attaches new policy on property = attaches old policy on property := by
  funext call
  unfold attaches
  rw [grows.implemented? formed.sound defined, grows.resolvable formed]

private theorem attachCalls_count (formed : analysis.catalog.WellFormed)
    (defined : analysis.catalog.Defined on) (calls : List (MethodReference × FieldReference))
    (other : MemberId) :
    recordedCount (analysis.attachCalls policy on calls).2.catalog other =
      recordedCount analysis.catalog other +
        calls.countP (attaches analysis.catalog policy on other) := by
  induction calls generalizing analysis with
  | nil => rfl
  | cons call rest ih =>
      have grown : Grows policy analysis.catalog
          (analysis.attachCall policy on call.1 call.2).2.catalog :=
        attachCall_grows formed.sound on call.1 call.2
      have others := ih (grown.wellFormed formed) (grown.defined defined)
      rw [attaches_grows grown formed defined, attachCall_count formed] at others
      refine others.trans ?_
      rw [List.countP_cons, Nat.add_assoc, Nat.add_comm (Bool.toNat _)]
      cases attaches analysis.catalog policy on other call <;> rfl

end Attached

/-! ## Accessors -/

def FieldsOnce (catalog : Catalog) : Prop :=
  ∀ id member, catalog.member? id = some member → member.isField → recordedCount catalog id = 1

/-- A catalog in which the type `on` is defined and fields have no other dependencies and links than
they should. -/
structure Ready (catalog : Catalog) (on : TypeId) : Prop where
  formed : catalog.WellFormed
  paired : catalog.Paired
  defined : catalog.Defined on
  fieldsOnce : FieldsOnce catalog

def hasStorage (catalog : Catalog) (on : TypeId) (method : MethodDefinition) : Bool :=
  ((catalog.tied? on method).bind catalog.backingField?).isSome

/-- How many dependencies a member gets when an accessor is tied to its property: the calls of the
body and, if the property has a backing field, that field's dependency. -/
def tiedGain (catalog : Catalog) (policy : CallPolicy) (on : TypeId) (entry : MemberId)
    (method : MethodDefinition) (stored : Bool) (id : MemberId) : Nat :=
  match catalog.tied? on method with
  | some property =>
    let count := (method.body.elim [] calledMethods).countP (catalog.resolvable policy) +
      stored.toNat
    (if receiver catalog property entry method.form = id then count else 0) +
      if property = id then count else 0
  | none => 0

section Accessors

variable {analysis : Analysis} {policy : CallPolicy} {on : TypeId}

/-- An extraction adds no fields, so fields keep their one dependency if no field gets another. -/
theorem FieldsOnce.grown {old new : Catalog} (once : FieldsOnce old) (grows : Grows policy old new)
    (same : ∀ {id member}, old.member? id = some member → member.isField →
      recordedCount new id = recordedCount old id) : FieldsOnce new := by
  intro id later found isField
  obtain ⟨member, before, _, wasField⟩ := grows.field_before found isField
  rw [same before wasField]
  exact once id member before wasField

theorem inherited_length {catalog : Catalog} (paired : catalog.Paired) (once : FieldsOnce catalog)
    (property : MemberId) :
    (inherited catalog property).length = (catalog.backingField? property).isSome.toNat := by
  unfold inherited
  cases stored : catalog.backingField? property with
  | none => rfl
  | some field =>
      have backed := (paired property field).mp stored
      obtain ⟨member, found, owned⟩ := Option.bind_eq_some_iff.mp backed
      exact once field member found (Member.isField_of_backedProperty? owned)

theorem withStorage_recorded (property : MemberId) (body : MethodBody) :
    recordedDependencies (analysis.withStorage policy on property body) =
      recordedDependencies analysis.catalog := by
  unfold withStorage
  rw [recordedDependencies_linkStorage, resolveAll_recorded]

private theorem linkAccessor_count (ready : Ready analysis.catalog on) {property : MemberId}
    {member : Member} (found : analysis.catalog.member? property = some member)
    (declared : member.declaringType = on) (method : MemberId) {definition : MethodDefinition}
    {body : MethodBody} {outcome : AccessorLink}
    (succeeded : (analysis.linkAccessor policy on property method definition body).1 = .ok outcome)
    (other : MemberId) :
    let final := (analysis.linkAccessor policy on property method definition body).2.catalog
    let count := (calledMethods body).countP (analysis.catalog.resolvable policy) +
      (final.backingField? property).isSome.toNat
    recordedCount final other = recordedCount analysis.catalog other +
      ((if receiver analysis.catalog property method definition.form = other then count else 0) +
        if property = other then count else 0) := by
  intro final count
  have storing : Grows policy analysis.catalog (analysis.withStorage policy on property body) :=
    withStorage_grows ready.formed.sound found declared body
  have recorded : recordedDependencies (analysis.withStorage policy on property body) =
      recordedDependencies analysis.catalog := withStorage_recorded property body
  have once : FieldsOnce (analysis.withStorage policy on property body) :=
    ready.fieldsOnce.grown storing fun _ _ => by rw [recordedCount, recorded, recordedCount]
  have tiedLength : (analysis.tiedDependencies policy on property body).length =
      (calledMethods body).countP (analysis.catalog.resolvable policy) +
        ((analysis.withStorage policy on property body).backingField? property).isSome.toNat := by
    have relinked : Relinkings True analysis.catalog _ := storing.relinkings
    rw [tiedDependencies, List.length_append, inherited_length (relinked.paired ready.paired) once,
      callsTo_length ready.formed]
  rcases @linkAccessor_cases analysis policy on property method definition body with
    ⟨accessorKnown, _, opened⟩ | ⟨_, failed, _⟩
  · have backing : final.backingField? property =
        (analysis.withStorage policy on property body).backingField? property := by
      refine backingField?_congr ?_
      rw [show final = _ from opened, linkState_addDependencies, linkState_addDependencies]
    have propertyKnown := storing.extends.hasMember (hasMember_of_member? found)
    have tiedCount : (analysis.tiedDependencies policy on property body).length = count := by
      rw [tiedLength, ← backing]
    rw [show final = _ from opened, recordedCount,
      recordedDependencies_addDependencies (by simpa [Catalog.addDependencies] using propertyKnown),
      recordedDependencies_addDependencies accessorKnown, recorded, storing.receiver found,
      List.length_append, List.length_append, Nat.add_assoc, recordedCount]
    congr 1
    split <;> split <;> simp [tiedCount]
  · rw [failed] at succeeded
    cases succeeded

private theorem linkAccessor_bystander (sound : analysis.catalog.Sound) {property : MemberId}
    {member : Member} (found : analysis.catalog.member? property = some member)
    (declared : member.declaringType = on) {method : MemberId} {definition : MethodDefinition}
    {other : MemberId} (notProperty : property ≠ other)
    (notReceiver : receiver analysis.catalog property method definition.form ≠ other)
    (body : MethodBody) :
    recordedDependencies
        (analysis.linkAccessor policy on property method definition body).2.catalog other =
      recordedDependencies analysis.catalog other := by
  have storing : Grows policy analysis.catalog (analysis.withStorage policy on property body) :=
    withStorage_grows sound found declared body
  rcases @linkAccessor_cases analysis policy on property method definition body with
    ⟨known, _, recorded⟩ | ⟨_, _, stored⟩
  · have propertyKnown := storing.extends.hasMember (hasMember_of_member? found)
    rw [storing.receiver found] at known recorded
    rw [recorded, recordedDependencies_addDependencies
        (by simpa [Catalog.addDependencies] using propertyKnown),
      recordedDependencies_addDependencies known, if_neg notProperty, if_neg notReceiver,
      withStorage_recorded, List.append_nil, List.append_nil]
  · rw [stored, withStorage_recorded]

private theorem tieAccessor_count (ready : Ready analysis.catalog on) (method : MemberId)
    {definition : MethodDefinition} {outcome : AccessorLink}
    (succeeded : (analysis.tieAccessor policy on method definition).1 = .ok outcome)
    (other : MemberId) :
    let final := (analysis.tieAccessor policy on method definition).2.catalog
    recordedCount final other = recordedCount analysis.catalog other +
      tiedGain analysis.catalog policy on method definition (hasStorage final on definition)
        other := by
  intro final
  have grown : Grows policy analysis.catalog final :=
    tieAccessor_grows ready.formed.sound on method definition
  unfold tiedGain hasStorage
  rw [grown.tied? ready.formed.sound ready.defined]
  rcases @tieAccessor_cases analysis policy on method definition with
    ⟨property, body, searched, tied, hasBody, same, opened⟩ | ⟨untied, unchanged, _⟩
  · obtain ⟨member, found, _, declared⟩ := tied?_declared ready.formed.sound tied
    rw [← same] at ready found
    rw [opened] at succeeded
    have counted := linkAccessor_count ready found declared method succeeded other
    rw [same] at counted
    simp only [final, opened, tied, hasBody, Option.elim_some, Option.bind_some]
    exact counted
  · rw [untied]
    simp [final, unchanged]

end Accessors

/-! ## Methods -/

/-- The operands that a method gets calls for itself; those of an accessor go to its property. -/
def ownOperands (method : MethodDefinition) : List MethodReference :=
  if method.isGetter || method.isSetter then []
  else method.body.elim [] fun body => methodOperands body.instructions

theorem ownOperands_eq (method : MethodDefinition) :
    ownOperands method = if method.isAccessor then []
      else method.body.elim [] fun body => body.instructions.filterMap Instruction.method? := by
  simp only [ownOperands, methodOperands_eq]
  rfl

def ownStoredCalls (catalog : Catalog) (on : TypeId) (method : MethodDefinition) :
    List (MethodReference × FieldReference) :=
  if method.isAccessor then []
  else method.body.elim [] fun body =>
    (catalog.type? on).elim [] fun entry => storedCalls entry.fullName body

def ownUses (catalog : Catalog) (policy : CallPolicy) (method : MethodDefinition) :
    List NamedDependency :=
  method.signatureTypes.map (⟨.typeUse .signature, ·.fullName⟩) ++
    (method.body.elim [] MethodBody.usedTypes).map (⟨.typeUse .body, ·.fullName⟩) ++
    ((ownOperands method).filter (catalog.resolvable policy)).map (⟨.call, ·.fullName⟩)

/-- How many dependencies a member gets when a method of the type `on` is extracted. -/
def gain (catalog : Catalog) (policy : CallPolicy) (on : TypeId) (method : MethodDefinition)
    (stored : Bool) (id : MemberId) : Nat :=
  match catalog.methodNamed? on method.fullName with
  | some entry =>
    tiedGain catalog policy on entry method stored id +
      (ownStoredCalls catalog on method).countP (attaches catalog policy on id) +
      if entry = id then (ownUses catalog policy method).length else 0
  | none => 0

section Methods

variable {analysis : Analysis} {options : Options} {policy : CallPolicy} {on : TypeId}

theorem convention?_of_not_accessor {method : MethodDefinition}
    (ordinary : method.isAccessor = false) : method.form.convention? = none := by
  unfold MethodDefinition.isAccessor at ordinary
  obtain ⟨noGetter, noSetter⟩ := Bool.or_eq_false_iff.mp ordinary
  unfold MethodDefinition.form
  rw [noGetter, noSetter]
  cases method.isConstructor <;> rfl

theorem tied?_of_not_accessor (catalog : Catalog) {method : MethodDefinition}
    (ordinary : method.isAccessor = false) : catalog.tied? on method = none := by
  simp [tied?, convention?_of_not_accessor ordinary]

private theorem methodCalls_count (ready : Ready analysis.catalog on) (id : MemberId)
    {method : MethodDefinition} {answer : List Dependency × Statistics}
    (succeeded : (analysis.methodCalls options on id method).1 = .ok answer) (other : MemberId) :
    let final := (analysis.methodCalls options on id method).2.catalog
    recordedCount final other = recordedCount analysis.catalog other +
      (tiedGain analysis.catalog options.callPolicy on id method (hasStorage final on method) other +
        (ownStoredCalls analysis.catalog on method).countP
          (attaches analysis.catalog options.callPolicy on other)) := by
  dsimp only
  rcases @methodCalls_cases analysis options on id method with
    ⟨noBody, opened⟩ | ⟨body, hasBody, accessor, final, outcome⟩ |
    ⟨body, hasBody, ordinary, final, _⟩
  · rw [opened]
    have untied : analysis.catalog.tied? on method = none := by
      unfold tied?
      rw [noBody]
      cases method.form.convention? <;> rfl
    simp [tiedGain, untied, ownStoredCalls, noBody]
  · cases tied : (analysis.tieAccessor options.callPolicy on id method).1 with
    | error error =>
        rw [outcome, tied] at succeeded
        cases succeeded
    | ok link =>
        rw [final]
        simpa [ownStoredCalls, accessor] using tieAccessor_count ready id tied other
  · have called : recordedDependencies (analysis.methodCalls options on id method).2.catalog =
        recordedDependencies (analysis.attachStoredCalls options.callPolicy on body).2.catalog := by
      rw [final]
      exact resolveAll_recorded _
    obtain ⟨entry, found, notStub⟩ := ready.defined
    rw [recordedCount, called, tiedGain, tied?_of_not_accessor _ ordinary]
    simp only [attachStoredCalls, ownStoredCalls, found, ordinary, hasBody, Option.elim_some,
      Nat.zero_add]
    exact attachCalls_count ready.formed ready.defined _ other

theorem methodCalls_reads (formed : analysis.catalog.WellFormed) {later : Catalog}
    (laterFormed : later.WellFormed) {id : MemberId} {method : MethodDefinition}
    {calls : List Dependency} {statistics : Statistics}
    (succeeded : (analysis.methodCalls options on id method).1 = .ok (calls, statistics))
    (extended : (analysis.methodCalls options on id method).2.catalog.Extends later) :
    later.Reads id calls (((ownOperands method).filter
      (analysis.catalog.resolvable options.callPolicy)).map (⟨.call, ·.fullName⟩)) := by
  rcases @methodCalls_cases analysis options on id method with
    ⟨noBody, opened⟩ | ⟨body, hasBody, accessor, _, outcome⟩ |
    ⟨body, hasBody, ordinary, final, outcome⟩
  · rw [opened] at succeeded
    cases succeeded
    simpa [ownOperands_eq, noBody] using Reads.nil
  · rw [outcome] at succeeded
    cases tied : (analysis.tieAccessor options.callPolicy on id method).1 with
    | error error => rw [tied] at succeeded; cases succeeded
    | ok link =>
        rw [tied] at succeeded
        cases succeeded
        simpa [ownOperands_eq, accessor] using Reads.nil
  · rw [outcome] at succeeded
    cases succeeded
    rw [final] at extended
    have attached : Grows options.callPolicy analysis.catalog
        (analysis.attachStoredCalls options.callPolicy on body).2.catalog :=
      attachStoredCalls_grows formed.sound on body
    have called := callsTo_reads (attached.wellFormed formed) laterFormed id extended
    rw [show (analysis.attachStoredCalls options.callPolicy on body).2.catalog.resolvable
      options.callPolicy = _ from funext (attached.resolvable formed)] at called
    simpa [ownOperands_eq, ordinary, hasBody, callUses] using called

/-! ### What a gain depends on -/

theorem tiedGain_grows {old new : Catalog} (grows : Grows policy old new) (formed : old.WellFormed)
    (defined : old.Defined on) (entry : MemberId) (method : MethodDefinition) (stored : Bool)
    (id : MemberId) :
    tiedGain new policy on entry method stored id =
      tiedGain old policy on entry method stored id := by
  unfold tiedGain
  rw [grows.tied? formed.sound defined, show new.resolvable policy = _ from
    funext (grows.resolvable formed)]
  cases tied : old.tied? on method with
  | none => rfl
  | some property =>
      obtain ⟨member, found, _⟩ := tied?_declared formed.sound tied
      simp only [grows.receiver found]

theorem ownStoredCalls_grows {old new : Catalog} (grows : Grows policy old new)
    (defined : old.Defined on) (method : MethodDefinition) :
    ownStoredCalls new on method = ownStoredCalls old on method := by
  obtain ⟨entry, found, notStub⟩ := defined
  unfold ownStoredCalls
  rw [found, grows.type?_of_defined found notStub]

theorem ownUses_grows {old new : Catalog} (grows : Grows policy old new) (formed : old.WellFormed)
    (method : MethodDefinition) : ownUses new policy method = ownUses old policy method := by
  unfold ownUses
  rw [show new.resolvable policy = _ from funext (grows.resolvable formed)]

/-- The gain of a method is the same at every moment of an extraction. -/
theorem gain_grows {old new : Catalog} (grows : Grows policy old new) (formed : old.WellFormed)
    (defined : old.Defined on) (method : MethodDefinition) (stored : Bool) (id : MemberId) :
    gain new policy on method stored id = gain old policy on method stored id := by
  unfold gain
  simp only [grows.methodNamed? formed (.inl defined), tiedGain_grows grows formed defined,
    ownStoredCalls_grows grows defined, attaches_grows grows formed defined,
    ownUses_grows grows formed]

theorem receiver_cases {catalog : Catalog} (formed : catalog.WellFormed) (property method : MemberId)
    (form : MethodForm) :
    receiver catalog property method form = method ∨
      ∃ owner accessor, catalog.member? property = some owner ∧
        catalog.member? (receiver catalog property method form) = some accessor ∧
        accessor.isMethod ∧ accessor.declaringType = owner.declaringType := by
  cases linked : if form = .getter then ((catalog.linksOf? property).getD {}).getter
      else ((catalog.linksOf? property).getD {}).setter with
  | none => exact .inl (by simp only [receiver, linked, Option.getD_none])
  | some accessor =>
      rw [show receiver catalog property method form = accessor by simp only [receiver, linked,
        Option.getD_some]]
      cases links : catalog.linksOf? property with
      | none => split at linked <;> simp [links] at linked
      | some links' =>
          obtain ⟨owner, ownerFound, isProperty⟩ := linksOf?_eq_some_iff.mp links
          obtain ⟨entry, there, isMethod, sameType⟩ := formed.ownAccessors ownerFound links'
            isProperty accessor (by split at linked <;> simp_all)
          exact .inr ⟨owner, entry, ownerFound, there, isMethod, sameType⟩

theorem receiver_isMethod {catalog : Catalog} (formed : catalog.WellFormed) {method : MemberId}
    {member : Member} (found : catalog.member? method = some member) (isMethod : member.isMethod)
    (property : MemberId) (form : MethodForm) :
    ∃ accessor, catalog.member? (receiver catalog property method form) = some accessor ∧
      accessor.isMethod := by
  rcases receiver_cases formed property method form with same | ⟨_, accessor, _, there, given, _⟩
  · exact ⟨member, by rw [same, found], isMethod⟩
  · exact ⟨accessor, there, given⟩

theorem tiedGain_of_unrelated {catalog : Catalog} {entry id : MemberId} {method : MethodDefinition}
    (unrelated : ∀ property, catalog.tied? on method = some property →
      receiver catalog property entry method.form ≠ id ∧ property ≠ id) (stored : Bool) :
    tiedGain catalog policy on entry method stored id = 0 := by
  unfold tiedGain
  cases tied : catalog.tied? on method with
  | none => rfl
  | some property => simp [unrelated property tied]

private theorem countP_attaches {catalog : Catalog} (sound : catalog.Sound) {id : MemberId}
    {member : Member}
    (found : catalog.member? id = some member) (notProperty : member.isProperty = false)
    (calls : List (MethodReference × FieldReference)) :
    calls.countP (attaches catalog policy on id) = 0 := by
  refine List.countP_eq_zero.mpr fun call _ attached => ?_
  unfold attaches at attached
  rw [Bool.and_eq_true, decide_eq_true_iff] at attached
  obtain ⟨property, there, isProperty, _⟩ := implemented?_declared sound attached.1
  rw [found] at there
  cases there
  rw [notProperty] at isProperty
  cases isProperty

private theorem gain_of_unrelated {catalog : Catalog} (sound : catalog.Sound) {id : MemberId}
    {member : Member} (found : catalog.member? id = some member)
    (notProperty : member.isProperty = false) {method : MethodDefinition}
    (unrelated : ∀ entry, catalog.methodNamed? on method.fullName = some entry →
      entry ≠ id ∧ ∀ property, receiver catalog property entry method.form ≠ id)
    (stored : Bool) : gain catalog policy on method stored id = 0 := by
  unfold gain
  cases entered : catalog.methodNamed? on method.fullName with
  | none => rfl
  | some entry =>
      obtain ⟨different, notReceiver⟩ := unrelated entry entered
      dsimp only
      rw [tiedGain_of_unrelated, countP_attaches sound found notProperty, if_neg different]
      intro property tied
      refine ⟨notReceiver property, ?_⟩
      rintro rfl
      obtain ⟨owner, there, isProperty, _⟩ := tied?_declared sound tied
      rw [found] at there
      cases there
      rw [notProperty] at isProperty
      cases isProperty

private theorem gain_field {catalog : Catalog} (formed : catalog.WellFormed) {id : MemberId}
    {member : Member} (found : catalog.member? id = some member) (isField : member.isField)
    (method : MethodDefinition) (stored : Bool) : gain catalog policy on method stored id = 0 := by
  have noMethod : ∀ {other : MemberId} {entry : Member}, catalog.member? other = some entry →
      entry.isMethod → other ≠ id := by
    rintro other entry there isMethod rfl
    rw [found] at there
    cases there
    rw [Member.isMethod_of_isField isField] at isMethod
    cases isMethod
  refine gain_of_unrelated formed.sound found (Member.isProperty_of_isField isField) ?_ stored
  intro entry entered
  obtain ⟨_, entryMember, entryFound, entryMethod, _⟩ := methodNamed?_eq_some_iff.mp entered
  refine ⟨noMethod entryFound entryMethod, fun property => ?_⟩
  obtain ⟨accessor, there, isMethod⟩ :=
    receiver_isMethod formed entryFound entryMethod property method.form
  exact noMethod there isMethod

/-- A body gives nothing to a member that is no property and does not get the calls of accessors. -/
theorem methodCalls_bystander (formed : analysis.catalog.WellFormed)
    (defined : analysis.catalog.Defined on) {id other : MemberId} {method : MethodDefinition}
    {member : Member} (found : analysis.catalog.member? other = some member)
    (notProperty : member.isProperty = false)
    (notReceiver : ∀ property, analysis.catalog.tied? on method = some property →
      receiver analysis.catalog property id method.form ≠ other) :
    recordedDependencies (analysis.methodCalls options on id method).2.catalog other =
      recordedDependencies analysis.catalog other := by
  rcases @methodCalls_cases analysis options on id method with
    ⟨_, opened⟩ | ⟨_, _, _, final, _⟩ | ⟨body, _, _, final, _⟩
  · rw [opened]
  · rw [final]
    rcases @tieAccessor_cases analysis options.callPolicy on id method with
      ⟨property, body, searched, tied, _, same, opened⟩ | ⟨_, unchanged, _⟩
    · obtain ⟨owner, there, isProperty, declared⟩ := tied?_declared formed.sound tied
      have different : property ≠ other := by
        rintro rfl
        rw [found] at there
        cases there
        rw [notProperty] at isProperty
        cases isProperty
      have notAccessor := notReceiver property tied
      rw [← same] at formed there notAccessor ⊢
      rw [opened]
      exact linkAccessor_bystander formed.sound there declared different notAccessor body
    · rw [unchanged]
  · have attaching : Grows options.callPolicy analysis.catalog
        (analysis.attachStoredCalls options.callPolicy on body).2.catalog :=
      attachStoredCalls_grows formed.sound on body
    rw [final]
    refine (congrFun (resolveAll_recorded _) other).trans ?_
    refine recordedDependencies_of_count attaching.extends (hasMember_of_member? found) ?_
    obtain ⟨entry, typeFound, notStub⟩ := defined
    simp only [attachStoredCalls, typeFound]
    rw [attachCalls_count formed ⟨entry, typeFound, notStub⟩,
      countP_attaches formed.sound found notProperty, Nat.add_zero]

/-! ### One method after the other -/

theorem Ready.grown {old new : Catalog} (ready : Ready old on) (grows : Grows policy old new)
    (same : ∀ {id member}, old.member? id = some member → member.isField →
      recordedCount new id = recordedCount old id) : Ready new on := by
  have relinked : Relinkings True old new := grows.relinkings
  exact ⟨grows.wellFormed ready.formed, relinked.paired ready.paired, grows.defined ready.defined,
    ready.fieldsOnce.grown grows same⟩

theorem Ready.elsewhere {catalog : Catalog} (ready : Ready catalog on) {other : TypeId}
    (defined : catalog.Defined other) : Ready catalog other :=
  ⟨ready.formed, ready.paired, defined, ready.fieldsOnce⟩

private theorem hasStorage_addDependencies {catalog : Catalog} (id : MemberId)
    (dependencies : List Dependency) (method : MethodDefinition)
    (same : (catalog.addDependencies id dependencies).tied? on method = catalog.tied? on method) :
    hasStorage (catalog.addDependencies id dependencies) on method =
      hasStorage catalog on method := by
  unfold hasStorage
  rw [same]
  cases catalog.tied? on method with
  | none => rfl
  | some property =>
      simp only [Option.bind_some, backingField?_congr (linkState_addDependencies id dependencies _)]

/-- Extracting a method looks its types up, then gives dependencies to other members, and then to the
method. -/
theorem extractKnownMethod_opened (formed : analysis.catalog.WellFormed) {method : MethodDefinition}
    {id : MemberId} {statistics : Statistics}
    (succeeded : (analysis.extractKnownMethod options on id method).1 = .ok statistics) :
    ∃ (used : Analysis) (own : List Dependency) (answer : List Dependency × Statistics),
      Grows options.callPolicy analysis.catalog used.catalog ∧
      recordedDependencies used.catalog = recordedDependencies analysis.catalog ∧
      (used.methodCalls options on id method).1 = .ok answer ∧
      (analysis.extractKnownMethod options on id method).2.catalog =
        (used.methodCalls options on id method).2.catalog.addDependencies id own ∧
      ∀ {later : Catalog}, later.WellFormed →
        (used.methodCalls options on id method).2.catalog.Extends later →
        later.Reads id own (ownUses analysis.catalog options.callPolicy method) := by
  have opened := @extractKnownMethod_cases analysis options on id method
  have signature : Grows options.callPolicy analysis.catalog
      (analysis.signatureUses id method).2.catalog := typeUses_grows ..
  have body : Grows options.callPolicy (analysis.signatureUses id method).2.catalog
      ((analysis.signatureUses id method).2.bodyUses id method.body).2.catalog := typeUses_grows ..
  have recorded : recordedDependencies
      ((analysis.signatureUses id method).2.bodyUses id method.body).2.catalog =
        recordedDependencies analysis.catalog :=
    (typeUses_recorded ..).trans (typeUses_recorded ..)
  have bodyReads : ∀ {later : Catalog}, later.WellFormed →
      ((analysis.signatureUses id method).2.bodyUses id method.body).2.catalog.Extends later →
      later.Reads id ((analysis.signatureUses id method).2.bodyUses id method.body).1 _ :=
    fun formed extended => typeUses_reads formed .body id extended
  dsimp only at opened
  generalize (analysis.signatureUses id method).2.bodyUses id method.body = used
    at body recorded bodyReads opened
  have grown : Grows options.callPolicy analysis.catalog used.2.catalog := signature.trans body
  have formedUsed := grown.wellFormed formed
  rcases opened with ⟨calls, given, called, _, final⟩ | ⟨error, _, failed⟩
  · have calling : Grows options.callPolicy used.2.catalog
        (used.2.methodCalls options on id method).2.catalog :=
      methodCalls_grows formedUsed.sound on id method
    refine ⟨used.2, _, _, grown, recorded, called, final, fun laterFormed extended => ?_⟩
    have signatureReads := @typeUses_reads analysis _ laterFormed .signature id
      method.signatureTypes (Grows.extends (body.trans calling) |>.trans extended)
    have callReads := methodCalls_reads formedUsed laterFormed called extended
    rw [show used.2.catalog.resolvable options.callPolicy = _ from
      funext (Grows.resolvable grown formed)] at callReads
    exact (signatureReads.append (bodyReads laterFormed (calling.extends.trans extended))).append
      callReads
  · rw [failed] at succeeded
    cases succeeded

private theorem extractKnownMethod_count (ready : Ready analysis.catalog on)
    {method : MethodDefinition}
    {id : MemberId} (entered : analysis.catalog.methodNamed? on method.fullName = some id)
    {statistics : Statistics}
    (succeeded : (analysis.extractKnownMethod options on id method).1 = .ok statistics)
    (other : MemberId) :
    let final := (analysis.extractKnownMethod options on id method).2.catalog
    recordedCount final other = recordedCount analysis.catalog other +
      gain analysis.catalog options.callPolicy on method (hasStorage final on method) other := by
  obtain ⟨_, member, found, _⟩ := methodNamed?_eq_some_iff.mp entered
  have extracted : Grows options.callPolicy analysis.catalog
      (analysis.extractKnownMethod options on id method).2.catalog :=
    extractKnownMethod_grows ready.formed.sound on (hasMember_of_member? found) method
  obtain ⟨used, own, answer, typing, recorded, called, final, reads⟩ :=
    extractKnownMethod_opened ready.formed succeeded
  have readyUsed : Ready used.catalog on :=
    ready.grown typing fun _ _ => by rw [recordedCount, recorded, recordedCount]
  have calling : Grows options.callPolicy used.catalog
      (used.methodCalls options on id method).2.catalog :=
    methodCalls_grows readyUsed.formed.sound on id method
  have counted := methodCalls_count readyUsed id called other
  dsimp only at counted
  rw [tiedGain_grows typing ready.formed ready.defined, ownStoredCalls_grows typing ready.defined,
    attaches_grows typing ready.formed ready.defined, recordedCount, recordedCount,
    congrFun recorded other] at counted
  have grown := typing.trans calling
  have known := (Grows.extends grown).hasMember (hasMember_of_member? found)
  have length := (reads (Grows.wellFormed grown ready.formed) (.refl _)).length
  rw [final] at extracted
  generalize (used.methodCalls options on id method).2.catalog = between at *
  have storage : hasStorage (between.addDependencies id own) on method =
      hasStorage between on method := by
    refine hasStorage_addDependencies id own method ?_
    rw [extracted.tied? ready.formed.sound ready.defined,
      Grows.tied? grown ready.formed.sound ready.defined]
  dsimp only
  rw [final, storage, gain, entered, recordedCount, recordedDependencies_addDependencies known,
    List.length_append, counted, Nat.add_assoc, recordedCount]
  dsimp only
  split
  · rw [length]
  · rfl

theorem extractMethod_count (ready : Ready analysis.catalog on) {method : MethodDefinition}
    {statistics : Statistics}
    (succeeded : (analysis.extractMethod options on method).1 = .ok statistics) (other : MemberId) :
    let final := (analysis.extractMethod options on method).2.catalog
    recordedCount final other = recordedCount analysis.catalog other +
      gain analysis.catalog options.callPolicy on method (hasStorage final on method) other := by
  unfold extractMethod at succeeded ⊢
  cases entered : analysis.catalog.methodNamed? on method.fullName with
  | none => simp [gain, entered, note]
  | some id =>
      simp only [entered] at succeeded ⊢
      exact extractKnownMethod_count ready entered succeeded other

theorem Ready.extractMethod (ready : Ready analysis.catalog on) {method : MethodDefinition}
    {statistics : Statistics}
    (succeeded : (analysis.extractMethod options on method).1 = .ok statistics) :
    Ready (analysis.extractMethod options on method).2.catalog on := by
  refine ready.grown (extractMethod_grows ready.formed.sound on method) fun found isField => ?_
  rw [extractMethod_count ready succeeded, gain_field ready.formed found isField, Nat.add_zero]

def afterMethods (analysis : Analysis) (options : Options) (on : TypeId)
    (methods : List MethodDefinition) : Catalog :=
  (analysis.extractMethods options on methods).2.catalog

theorem extractMethods_cons_of_ok {analysis : Analysis} {method : MethodDefinition}
    {first : Statistics} (succeeded : (analysis.extractMethod options on method).1 = .ok first)
    (rest : List MethodDefinition) :
    let further := (analysis.extractMethod options on method).2.extractMethods options on rest
    analysis.extractMethods options on (method :: rest) = (further.1.map first.merge, further.2) := by
  intro further
  rw [extractMethods]
  cases extracted : analysis.extractMethod options on method with
  | mk answer next =>
      have same : further = next.extractMethods options on rest := by simp only [further, extracted]
      rw [extracted] at succeeded
      cases succeeded
      dsimp only
      rw [← same]
      cases further with
      | mk answer final => cases answer <;> rfl

theorem extractMethods_cons_of_error {analysis : Analysis} {method : MethodDefinition}
    {error : ExtractionFailure}
    (failed : (analysis.extractMethod options on method).1 = .error error)
    (rest : List MethodDefinition) :
    analysis.extractMethods options on (method :: rest) =
      (.error error, (analysis.extractMethod options on method).2) := by
  rw [extractMethods]
  cases extracted : analysis.extractMethod options on method with
  | mk answer next =>
      rw [extracted] at failed
      cases failed
      rfl

theorem extractMethods_cons {analysis : Analysis} {method : MethodDefinition}
    {statistics : Statistics}
    (succeeded : (analysis.extractMethod options on method).1 = .ok statistics)
    (rest : List MethodDefinition) :
    analysis.afterMethods options on (method :: rest) =
      (analysis.extractMethod options on method).2.afterMethods options on rest := by
  rw [afterMethods, extractMethods_cons_of_ok succeeded]
  rfl

theorem extractMethods_ok {analysis : Analysis} {method : MethodDefinition}
    {rest : List MethodDefinition} {statistics : Statistics}
    (succeeded : (analysis.extractMethods options on (method :: rest)).1 = .ok statistics) :
    ∃ first others, (analysis.extractMethod options on method).1 = .ok first ∧
      ((analysis.extractMethod options on method).2.extractMethods options on rest).1 =
        .ok others ∧
      statistics = first.merge others := by
  cases answer : (analysis.extractMethod options on method).1 with
  | error error =>
      rw [extractMethods_cons_of_error answer] at succeeded
      cases succeeded
  | ok first =>
      rw [extractMethods_cons_of_ok answer] at succeeded
      cases further : ((analysis.extractMethod options on method).2.extractMethods options on
          rest).1 with
      | error error => rw [further] at succeeded; cases succeeded
      | ok others =>
          rw [further] at succeeded
          cases succeeded
          exact ⟨first, others, rfl, rfl, rfl⟩

theorem Ready.extractMethods {analysis : Analysis} (ready : Ready analysis.catalog on)
    {methods : List MethodDefinition} {statistics : Statistics}
    (succeeded : (analysis.extractMethods options on methods).1 = .ok statistics) :
    Ready (analysis.afterMethods options on methods) on := by
  induction methods generalizing analysis statistics with
  | nil => exact ready
  | cons method rest ih =>
      obtain ⟨first, others, ok, okRest, _⟩ := extractMethods_ok succeeded
      rw [extractMethods_cons ok]
      exact ih (ready.extractMethod ok) okRest

theorem extractType_eq (analysis : Analysis) (options : Options) (on : TypeId)
    (definition : TypeDefinition) :
    (analysis.extractType options on definition).1 =
        (analysis.extractMethods options on definition.methods).1 ∧
      (analysis.extractType options on definition).2.catalog =
        analysis.afterMethods options on definition.methods := by
  unfold extractType afterMethods
  cases analysis.extractMethods options on definition.methods with
  | mk answer next => cases answer <;> exact ⟨rfl, rfl⟩

theorem extractType_ok {analysis : Analysis} {definition : TypeDefinition}
    (succeeded : (analysis.extractType options on definition).1.isOk) :
    (∃ statistics, (analysis.extractMethods options on definition.methods).1 = .ok statistics) ∧
      (analysis.extractType options on definition).2.catalog =
        analysis.afterMethods options on definition.methods := by
  obtain ⟨answer, catalog⟩ := analysis.extractType_eq options on definition
  rw [answer] at succeeded
  refine ⟨?_, catalog⟩
  cases extracted : (analysis.extractMethods options on definition.methods).1 with
  | error error => rw [extracted] at succeeded; cases succeeded
  | ok statistics => exact ⟨statistics, rfl⟩

theorem extractTypes_cons_of_ok {analysis : Analysis} {loaded : LoadedType} {first : Statistics}
    (succeeded : (analysis.extractMethods options loaded.1 loaded.2.methods).1 = .ok first)
    (rest : List LoadedType) :
    let further := (analysis.extractType options loaded.1 loaded.2).2.extractTypes options rest
    analysis.extractTypes options (loaded :: rest) = (further.1.map first.merge, further.2) := by
  intro further
  rw [← (analysis.extractType_eq options loaded.1 loaded.2).1] at succeeded
  rw [extractTypes]
  cases extracted : analysis.extractType options loaded.1 loaded.2 with
  | mk answer next =>
      have same : further = next.extractTypes options rest := by simp only [further, extracted]
      rw [extracted] at succeeded
      cases succeeded
      dsimp only
      rw [← same]
      cases further with
      | mk answer final => cases answer <;> rfl

theorem extractTypes_cons_of_error {analysis : Analysis} {loaded : LoadedType}
    {cause : ExtractionFailure}
    (failed : (analysis.extractMethods options loaded.1 loaded.2.methods).1 = .error cause)
    (rest : List LoadedType) :
    (analysis.extractTypes options (loaded :: rest)).1 =
      .error { typeName := loaded.2.fullName, cause } := by
  rw [← (analysis.extractType_eq options loaded.1 loaded.2).1] at failed
  rw [extractTypes]
  cases extracted : analysis.extractType options loaded.1 loaded.2 with
  | mk answer next =>
      rw [extracted] at failed
      cases failed
      rfl

theorem extractTypes_ok {analysis : Analysis} {loaded : LoadedType} {rest : List LoadedType}
    {statistics : Statistics}
    (succeeded : (analysis.extractTypes options (loaded :: rest)).1 = .ok statistics) :
    let next := (analysis.extractType options loaded.1 loaded.2).2
    ∃ first others, (analysis.extractMethods options loaded.1 loaded.2.methods).1 = .ok first ∧
      (next.extractTypes options rest).1 = .ok others ∧ statistics = first.merge others ∧
      (analysis.extractTypes options (loaded :: rest)).2 = (next.extractTypes options rest).2 := by
  intro next
  cases answer : (analysis.extractMethods options loaded.1 loaded.2.methods).1 with
  | error error =>
      rw [extractTypes_cons_of_error answer] at succeeded
      cases succeeded
  | ok first =>
      rw [extractTypes_cons_of_ok answer] at succeeded ⊢
      cases further : (next.extractTypes options rest).1 with
      | error error => rw [further] at succeeded; cases succeeded
      | ok others =>
          rw [further] at succeeded
          cases succeeded
          exact ⟨first, others, rfl, rfl, rfl, rfl⟩

end Methods

end Analysis

end MemberGraph
