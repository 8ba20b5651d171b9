import MemberGraph.Proofs.ExtractionRun
import MemberGraph.Proofs.Mirror

/-!
The books of an extraction. A dependency is told apart by its kind, by the sort of the member that
holds it and by whether it starts from that member. The counts of an extraction fix, up to one number,
how many dependencies of each description it adds to the catalog.
-/

set_option autoImplicit false

namespace MemberGraph

/-! ## Descriptions -/

inductive MemberSort where
  | method
  | field
  | property
deriving DecidableEq, Repr

def MemberRole.sort : MemberRole → MemberSort
  | .method _ => .method
  | .field _ => .field
  | .property _ => .property

theorem MemberRole.sort_withoutBacking (role : MemberRole) : role.withoutBacking.sort = role.sort := by
  cases role <;> rfl

/-- How a member holds a dependency. -/
structure Holding where
  holder : MemberSort
  kind : DependencyKind
  /-- Whether the dependency starts from the member that holds it. -/
  own : Bool
deriving DecidableEq, Repr

namespace Member

def holding (member : Member) (dependency : Dependency) : Holding where
  holder := member.role.sort
  kind := dependency.kind
  own := dependency.origin = member.id

def tally (member : Member) (counted : Holding → Bool) : Nat :=
  member.dependencies.toList.countP (counted <| member.holding ·)

def isStored (member : Member) : Bool := (member.property?.bind (·.backingField)).isSome

private theorem sort_of_isMethod {member : Member} (isMethod : member.isMethod) :
    member.role.sort = .method := by
  unfold Member.isMethod method? at isMethod
  cases role : member.role <;> simp_all [MemberRole.sort]

private theorem sort_of_isProperty {member : Member} (isProperty : member.isProperty) :
    member.role.sort = .property := by
  unfold Member.isProperty property? at isProperty
  cases role : member.role <;> simp_all [MemberRole.sort]

private theorem sort_of_isField {member : Member} (isField : member.isField) :
    member.role.sort = .field := by
  unfold Member.isField at isField
  cases role : member.role <;> simp_all [MemberRole.sort]

theorem Extends.holding {old new : Member} (extended : old.Extends new) : new.holding = old.holding := by
  funext dependency
  simp only [Member.holding, extended.id, ← new.role.sort_withoutBacking, extended.role,
    MemberRole.sort_withoutBacking]

theorem map_holding {member : Member} {dependencies : List Dependency} {kind : DependencyKind}
    {own : Bool}
    (alike : ∀ dependency ∈ dependencies,
      dependency.kind = kind ∧ decide (dependency.origin = member.id) = own) :
    dependencies.map member.holding =
      List.replicate dependencies.length ⟨member.role.sort, kind, own⟩ := by
  refine List.map_eq_replicate_iff.mpr fun dependency there => ?_
  rw [holding, (alike dependency there).1, (alike dependency there).2]

private theorem isStored_of_isMethod {member : Member} (isMethod : member.isMethod) :
    member.isStored = false := by
  unfold Member.isMethod method? at isMethod
  unfold isStored property?
  cases role : member.role <;> simp_all

end Member

namespace Catalog

def tally (catalog : Catalog) (counted : Holding → Bool) : Nat :=
  catalog.held.countP fun one => counted (one.1.holding one.2)

def storedProperties (catalog : Catalog) : Nat := catalog.members.toList.countP (·.isStored)

/-! ## Sums over members -/

def memberTotal (catalog : Catalog) (measure : Member → Nat) : Nat :=
  (catalog.members.toList.map measure).sum

section Totals

variable {catalog old new : Catalog} {measure : Member → Nat}

theorem tally_eq (counted : Holding → Bool) :
    catalog.tally counted = catalog.memberTotal (·.tally counted) := by
  simp [tally, held, memberTotal, Member.tally, List.countP_flatMap, List.countP_map,
    Function.comp_def]

theorem storedProperties_eq :
    catalog.storedProperties = catalog.memberTotal (·.isStored.toNat) := by
  unfold storedProperties memberTotal
  induction catalog.members.toList with
  | nil => rfl
  | cons member rest ih => cases stored : member.isStored <;> simp [stored, ih, Nat.add_comm]

theorem memberTotal_congr (same : ∀ id, (new.member? id).map measure = (old.member? id).map measure) :
    new.memberTotal measure = old.memberTotal measure := by
  unfold memberTotal
  congr 1
  apply List.ext_getElem?
  intro index
  simpa [member?] using same ⟨index⟩

theorem memberTotal_updateMember_of_kept {change : Member → Member}
    (kept : ∀ member, measure (change member) = measure member) (id : MemberId) :
    (catalog.updateMember id change).memberTotal measure = catalog.memberTotal measure := by
  refine memberTotal_congr fun other => ?_
  rw [member?_updateMember]
  split
  · simp [Function.comp_def, kept]
  · rfl

private theorem sum_map_modify {values : List Member} {index : Nat} {value : Member}
    (found : values[index]? = some value) (change : Member → Member) :
    ((values.modify index change).map measure).sum + measure value =
      (values.map measure).sum + measure (change value) := by
  induction values generalizing index with
  | nil => simp at found
  | cons first rest ih =>
      cases index with
      | zero =>
          obtain rfl : first = value := by simpa using found
          simp only [List.modify_zero_cons, List.map_cons, List.sum_cons]
          omega
      | succ index =>
          have others := ih (by simpa using found)
          simp only [List.modify_succ_cons, List.map_cons, List.sum_cons]
          omega

private theorem memberTotal_updateMember (measure : Member → Nat) {id : MemberId} {member : Member}
    (found : catalog.member? id = some member) (change : Member → Member) :
    (catalog.updateMember id change).memberTotal measure + measure member =
      catalog.memberTotal measure + measure (change member) := by
  simp only [memberTotal, updateMember, Array.toList_modify]
  exact sum_map_modify (by simpa [member?] using found) change

private theorem memberTotal_mirrors {held : List (TypeId × Dependency)}
    (mirrors : old.Mirrors held new) (kept : ∀ (member : Member) (backwards : Array Dependency),
      measure { member with backwards } = measure member) :
    new.memberTotal measure = old.memberTotal measure := by
  refine memberTotal_congr fun id => ?_
  rw [mirrors.member?, Option.map_map]
  simp only [Function.comp_def, kept]

theorem Mirrors.tally {held : List (TypeId × Dependency)} (mirrors : old.Mirrors held new)
    (counted : Holding → Bool) : new.tally counted = old.tally counted := by
  rw [tally_eq, tally_eq]
  refine memberTotal_mirrors mirrors ?_
  exact fun _ _ => rfl

theorem Mirrors.storedProperties {held : List (TypeId × Dependency)}
    (mirrors : old.Mirrors held new) : new.storedProperties = old.storedProperties := by
  rw [storedProperties_eq, storedProperties_eq]
  refine memberTotal_mirrors mirrors ?_
  exact fun _ _ => rfl

end Totals

/-! ## Elementary changes -/

/-- Only stubs of methods were added, which depend on nothing. -/
def Stubbed (old new : Catalog) : Prop :=
  ∃ stubs : List Member, new.members.toList = old.members.toList ++ stubs ∧
    ∀ stub ∈ stubs, stub.isMethod ∧ stub.dependencies = #[]

section Stubbed

variable {old new first second third : Catalog}

theorem Stubbed.of_sameEntries (same : Analysis.SameEntries old new) : old.Stubbed new :=
  ⟨[], by rw [same.members, List.append_nil], by simp⟩

theorem Stubbed.addMember (key : String) {make : MemberId → Member}
    (isMethod : ∀ id, (make id).isMethod) (bare : ∀ id, (make id).dependencies = #[]) :
    old.Stubbed (old.addMember key make).2 := by
  cases fresh : old.memberNamed? key with
  | some id =>
      rw [addMember_of_known make fresh]
      exact .of_sameEntries ⟨rfl, rfl⟩
  | none =>
      refine ⟨[make ⟨old.members.size⟩], ?_, fun stub there => ?_⟩
      · rw [(Analysis.addMember_enters fresh make).members, Array.toList_push]
      · rw [List.mem_singleton.mp there]
        exact ⟨isMethod _, bare _⟩

theorem Stubbed.trans (before : first.Stubbed second) (after : second.Stubbed third) :
    first.Stubbed third := by
  obtain ⟨stubs, added, bare⟩ := before
  obtain ⟨others, addedToo, bareToo⟩ := after
  refine ⟨stubs ++ others, by rw [addedToo, added, List.append_assoc], fun stub there => ?_⟩
  rcases List.mem_append.mp there with there | there
  · exact bare stub there
  · exact bareToo stub there

theorem Stubbed.memberTotal (stubbed : old.Stubbed new) {measure : Member → Nat}
    (nothing : ∀ stub : Member, stub.isMethod → stub.dependencies = #[] → measure stub = 0) :
    new.memberTotal measure = old.memberTotal measure := by
  obtain ⟨stubs, added, bare⟩ := stubbed
  have none : (stubs.map measure).sum = 0 := by
    rw [List.sum_eq_zero_iff_forall_eq_nat]
    intro value there
    obtain ⟨stub, listed, rfl⟩ := List.mem_map.mp there
    exact nothing stub (bare stub listed).1 (bare stub listed).2
  rw [Catalog.memberTotal, Catalog.memberTotal, added, List.map_append, List.sum_append, none,
    Nat.add_zero]

theorem Stubbed.member? (stubbed : old.Stubbed new) {id : MemberId} {member : Member}
    (found : old.member? id = some member) : new.member? id = some member := by
  obtain ⟨stubs, added, _⟩ := stubbed
  rw [Catalog.member?, ← Array.getElem?_toList] at found ⊢
  rw [added, List.getElem?_append_left (List.getElem?_eq_some_iff.mp found).1]
  exact found

theorem Stubbed.tally (stubbed : old.Stubbed new) (counted : Holding → Bool) :
    new.tally counted = old.tally counted := by
  rw [tally_eq, tally_eq]
  exact stubbed.memberTotal fun stub _ bare => by simp [Member.tally, bare]

theorem Stubbed.storedProperties (stubbed : old.Stubbed new) :
    new.storedProperties = old.storedProperties := by
  rw [storedProperties_eq, storedProperties_eq]
  exact stubbed.memberTotal fun stub isMethod _ => by simp [Member.isStored_of_isMethod isMethod]

end Stubbed

section Changes

variable {catalog : Catalog}

theorem tally_addDependencies {id : MemberId} {member : Member}
    (found : catalog.member? id = some member) (dependencies : List Dependency)
    (counted : Holding → Bool) :
    (catalog.addDependencies id dependencies).tally counted =
      catalog.tally counted + (dependencies.map member.holding).countP counted := by
  have balance := memberTotal_updateMember (·.tally counted) found
    fun member => { member with dependencies := member.dependencies ++ dependencies }
  have split : Member.tally { member with dependencies := member.dependencies ++ dependencies }
      counted = member.tally counted + (dependencies.map member.holding).countP counted := by
    simp only [Member.tally, Array.toList_appendList, List.countP_append, List.countP_map]
    rfl
  rw [tally_eq, tally_eq]
  rw [split] at balance
  exact Nat.add_right_cancel (balance.trans (by omega))

theorem storedProperties_addDependencies (id : MemberId) (dependencies : List Dependency) :
    (catalog.addDependencies id dependencies).storedProperties = catalog.storedProperties := by
  rw [storedProperties_eq, storedProperties_eq]
  refine memberTotal_updateMember_of_kept ?_ id
  exact fun _ => rfl

private theorem tally_linkBacking (property field : MemberId) (counted : Holding → Bool) :
    (catalog.linkBacking property field).2.tally counted = catalog.tally counted := by
  refine linkBacking_induction (motive := fun later => later.tally counted = catalog.tally counted)
    (fun {later} id change relinked before => ?_) rfl property field
  rw [← before, tally_eq, tally_eq]
  refine memberTotal_updateMember_of_kept (fun member => ?_) id
  rw [Member.tally, (relinked member).dependencies, (relinked member).extends.holding, Member.tally]

private theorem storedProperties_withBackedProperty (id : MemberId) (backed : Option MemberId) :
    (catalog.updateMember id (·.withBackedProperty backed)).storedProperties =
      catalog.storedProperties := by
  rw [storedProperties_eq, storedProperties_eq]
  refine memberTotal_updateMember_of_kept (fun member => ?_) id
  rw [Member.isStored, Member.property?_withBackedProperty, Member.isStored]

private theorem storedProperties_freePrevious (previous : Option MemberId) (field : MemberId) :
    (catalog.freePrevious previous field).storedProperties = catalog.storedProperties := by
  unfold freePrevious
  split
  · split
    · rfl
    · exact storedProperties_withBackedProperty _ _
  · rfl

private theorem storedProperties_linkBacking (property field : MemberId) :
    (catalog.linkBacking property field).2.storedProperties ≤ catalog.storedProperties +
      ((catalog.linkBacking property field).2.backingField? property).isSome.toNat := by
  rcases linkBacking_cases property field with ⟨links, allowed, linked⟩ | ⟨refused, _⟩
  · obtain ⟨member, found, _⟩ := linksOf?_eq_some_iff.mp linked
    have balance := memberTotal_updateMember (·.isStored.toNat) found (·.withBackingField field)
    have bound := Bool.toNat_le (member.withBackingField field).isStored
    rw [backingField?_linkBacking allowed linked, if_pos rfl, linkBacking_of_allowed allowed linked,
      storedProperties_withBackedProperty, storedProperties_freePrevious, storedProperties_eq,
      storedProperties_eq]
    simp only [Option.isSome_some, Bool.toNat_true]
    omega
  · rw [refused]
    exact Nat.le_add_right ..

end Changes

end Catalog

/-! ## Books -/

/-- What an extraction with the given counts adds, if the bodies of accessors make so many calls. -/
def Statistics.holdings (statistics : Statistics) (accessorCalls : Nat) : List Holding :=
  .replicate statistics.signatureDependencies ⟨.method, .typeUse .signature, true⟩ ++
  .replicate statistics.bodyTypeDependencies ⟨.method, .typeUse .body, true⟩ ++
  .replicate statistics.callDependencies ⟨.method, .call, true⟩ ++
  .replicate (statistics.backingFieldCalls + accessorCalls) ⟨.property, .call, true⟩ ++
  .replicate accessorCalls ⟨.method, .call, false⟩ ++
  .replicate statistics.backingFieldsLinked ⟨.property, .typeUse .field, false⟩ ++
  .replicate statistics.backingFieldsLinked ⟨.method, .typeUse .field, false⟩

theorem countP_replicate_eq (counted : Holding → Bool) (holding : Holding) (count : Nat) :
    (List.replicate count holding).countP counted = count * (counted holding).toNat := by
  rw [List.countP_replicate]
  cases counted holding <;> simp

private theorem Statistics.countP_holdings_merge (statistics others : Statistics)
    (calls otherCalls : Nat) (counted : Holding → Bool) :
    ((statistics.merge others).holdings (calls + otherCalls)).countP counted =
      (statistics.holdings calls).countP counted + (others.holdings otherCalls).countP counted := by
  simp only [holdings, merge, List.countP_append, countP_replicate_eq, Nat.add_mul]
  omega

namespace Catalog

/-- The second catalog holds what the first does and what an extraction with the given counts adds. -/
structure Books (old : Catalog) (statistics : Statistics) (new : Catalog) : Prop where
  tally : ∃ accessorCalls, ∀ counted, new.tally counted =
    old.tally counted + (statistics.holdings accessorCalls).countP counted
  stored : new.storedProperties ≤ old.storedProperties + statistics.backingFieldsLinked

theorem Books.merge {first second third : Catalog} {statistics others : Statistics}
    (before : first.Books statistics second) (after : second.Books others third) :
    first.Books (statistics.merge others) third := by
  obtain ⟨⟨calls, tally⟩, stored⟩ := before
  obtain ⟨⟨otherCalls, tallyToo⟩, storedToo⟩ := after
  refine ⟨⟨calls + otherCalls, fun counted => ?_⟩, ?_⟩
  · rw [tallyToo, tally, Statistics.countP_holdings_merge, Nat.add_assoc]
  · simp only [Statistics.merge]
    omega

theorem Stubbed.books {old new : Catalog} (stubbed : old.Stubbed new) {statistics : Statistics}
    (nothing : statistics.holdings 0 = []) : old.Books statistics new := by
  refine ⟨⟨0, fun counted => ?_⟩, ?_⟩
  · rw [stubbed.tally, nothing, List.countP_nil, Nat.add_zero]
  · rw [stubbed.storedProperties]
    exact Nat.le_add_right ..

theorem Books.refl (catalog : Catalog) {statistics : Statistics}
    (nothing : statistics.holdings 0 = []) : catalog.Books statistics catalog :=
  (Stubbed.of_sameEntries ⟨rfl, rfl⟩).books nothing

private theorem books_addDependencies {catalog : Catalog} {id : MemberId} {member : Member}
    (found : catalog.member? id = some member) {dependencies : List Dependency}
    {statistics : Statistics} (accessorCalls : Nat)
    (accounted : ∀ counted, (dependencies.map member.holding).countP counted =
      (statistics.holdings accessorCalls).countP counted) :
    catalog.Books statistics (catalog.addDependencies id dependencies) := by
  refine ⟨⟨accessorCalls, fun counted => ?_⟩, ?_⟩
  · rw [tally_addDependencies found, accounted]
  · rw [storedProperties_addDependencies]
    exact Nat.le_add_right ..

end Catalog

namespace Analysis

open Catalog

variable {analysis : Analysis} {policy : CallPolicy} {on : TypeId}

private theorem methodFor_stubbed (on : TypeId) (reference : MethodReference) :
    analysis.catalog.Stubbed (analysis.methodFor on reference).2.catalog := by
  cases missing : analysis.catalog.methodNamed? on reference.fullName with
  | some id =>
      simp only [methodFor, missing]
      exact .of_sameEntries ⟨rfl, rfl⟩
  | none =>
      rw [methodFor_of_missing missing]
      dsimp only
      have withReturn : analysis.catalog.Stubbed (analysis.typeFor reference.returnType).2.catalog :=
        .of_sameEntries (typeFor_sameEntries reference.returnType)
      have withParameters : (analysis.typeFor reference.returnType).2.catalog.Stubbed
          ((analysis.typeFor reference.returnType).2.typesFor reference.parameters).2.catalog :=
        .of_sameEntries (typesFor_sameEntries reference.parameters)
      exact (withReturn.trans withParameters).trans (.addMember _ (fun _ => rfl) fun _ => rfl)

theorem resolve_stubbed (reference : MethodReference) :
    analysis.catalog.Stubbed (analysis.resolve policy reference).2.catalog := by
  have typed : analysis.catalog.Stubbed (analysis.typeFor reference.declaringType).2.catalog :=
    .of_sameEntries (typeFor_sameEntries reference.declaringType)
  rcases resolve_cases policy reference with ⟨id, _, resolved⟩ | ⟨_, _, resolved⟩ | ⟨_, _, _, kept⟩
  · rw [resolved]
    exact typed
  · rw [resolved]
    exact typed.trans (methodFor_stubbed _ reference)
  · rw [kept]
    exact typed

theorem resolveAll_stubbed (references : List MethodReference) :
    analysis.catalog.Stubbed (analysis.resolveAll policy references).2.catalog := by
  induction references generalizing analysis with
  | nil => exact .of_sameEntries ⟨rfl, rfl⟩
  | cons reference rest ih => exact (resolve_stubbed reference).trans ih

/-! ## Stored calls -/

private theorem attachCall_books (sound : analysis.catalog.Sound) (reference : MethodReference)
    (field : FieldReference) :
    analysis.catalog.Books
      { backingFieldCalls := (analysis.attachCall policy on reference field).1.toNat }
      (analysis.attachCall policy on reference field).2.catalog := by
  rcases attachCall_cases policy on reference field with
    ⟨property, target, searched, implemented, unchanged, _, attached, recorded⟩ |
    ⟨_, searched, _, unchanged, _, refused, kept⟩ | ⟨_, refused, kept⟩
  · obtain ⟨member, found, isProperty, _⟩ := implemented?_declared sound implemented
    rw [attached, recorded]
    rw [← unchanged] at sound found ⊢
    have stubbed : searched.catalog.Stubbed (searched.resolve policy reference).2.catalog :=
      resolve_stubbed reference
    have alike := @Member.map_holding member [.call property target] .call true
      (by simp [Dependency.kind, Dependency.origin, sound.memberId found])
    have booked : (searched.resolve policy reference).2.catalog.Books { backingFieldCalls := 1 }
        ((searched.resolve policy reference).2.catalog.addDependencies property
          [.call property target]) := by
      refine books_addDependencies (stubbed.member? found) 0 fun counted => ?_
      rw [alike, Member.sort_of_isProperty isProperty]
      rfl
    have looked : searched.catalog.Books {} _ := stubbed.books rfl
    exact looked.merge booked
  · rw [refused, kept, ← unchanged]
    exact (resolve_stubbed reference).books rfl
  · rw [refused, kept]
    exact .refl _ rfl

private theorem attachCalls_books (sound : analysis.catalog.Sound)
    (calls : List (MethodReference × FieldReference)) :
    analysis.catalog.Books { backingFieldCalls := (analysis.attachCalls policy on calls).1 }
      (analysis.attachCalls policy on calls).2.catalog := by
  induction calls generalizing analysis with
  | nil => exact .refl _ rfl
  | cons call rest ih =>
      have grows : Grows policy analysis.catalog
          (analysis.attachCall policy on call.1 call.2).2.catalog :=
        attachCall_grows sound on call.1 call.2
      exact (attachCall_books sound call.1 call.2).merge (ih (grows.sound sound))

private theorem attachStoredCalls_books (sound : analysis.catalog.Sound) (body : MethodBody) :
    analysis.catalog.Books { backingFieldCalls := (analysis.attachStoredCalls policy on body).1 }
      (analysis.attachStoredCalls policy on body).2.catalog := by
  unfold attachStoredCalls
  split
  · exact attachCalls_books sound _
  · exact .refl _ rfl

/-! ## Accessors -/

def FieldsTyped (catalog : Catalog) : Prop :=
  ∀ id member, catalog.member? id = some member → member.isField →
    ∃ target, recordedDependencies catalog id = [.onType .field id target]

theorem FieldsTyped.grown {old new : Catalog} (typed : FieldsTyped old) (grows : Grows policy old new)
    (once : FieldsOnce new) : FieldsTyped new := by
  intro id later found isField
  obtain ⟨member, before, _, wasField⟩ := grows.field_before found isField
  obtain ⟨target, recorded⟩ := typed id member before wasField
  refine ⟨target, ?_⟩
  rw [← recorded]
  refine recordedDependencies_of_count grows.extends (hasMember_of_member? before) ?_
  rw [once id later found isField, recordedCount, recorded]
  rfl

private theorem inherited_holdings {catalog : Catalog} (sound : catalog.Sound)
    (paired : catalog.Paired) (typed : FieldsTyped catalog) {id : MemberId} {member : Member}
    (found : catalog.member? id = some member) (notField : member.role.sort ≠ .field)
    (property : MemberId) :
    (inherited catalog property).map member.holding =
      List.replicate (catalog.backingField? property).isSome.toNat
        ⟨member.role.sort, .typeUse .field, false⟩ := by
  unfold inherited
  cases stored : catalog.backingField? property with
  | none => rfl
  | some field =>
      obtain ⟨owner, there, owned⟩ := Option.bind_eq_some_iff.mp ((paired property field).mp stored)
      have isField := Member.isField_of_backedProperty? owned
      obtain ⟨target, recorded⟩ := typed field owner there isField
      have different : field ≠ member.id := by
        rw [sound.memberId found]
        intro same
        rw [same, found] at there
        cases there
        exact notField (Member.sort_of_isField isField)
      rw [Option.elim_some, recorded]
      simp [Member.holding, Dependency.kind, Dependency.origin, different]

private theorem callsTo_holdings (member : Member) (origin : MemberId)
    (targets : List (Option MemberId)) :
    (callsTo origin targets).map member.holding = List.replicate (callsTo origin targets).length
      ⟨member.role.sort, .call, decide (origin = member.id)⟩ := by
  refine Member.map_holding fun dependency there => ?_
  obtain ⟨target, _, rfl⟩ := mem_callsTo there
  exact ⟨rfl, rfl⟩

private theorem withStorage_tally (property : MemberId) (body : MethodBody)
    (counted : Holding → Bool) :
    (analysis.withStorage policy on property body).tally counted =
      analysis.catalog.tally counted := by
  rw [← (resolveAll_stubbed (calledMethods body)).tally counted]
  unfold withStorage linkStorage
  split
  · exact tally_linkBacking ..
  · rfl

private theorem withStorage_storedProperties (property : MemberId) (body : MethodBody) :
    let stored := analysis.withStorage policy on property body
    stored.storedProperties ≤ analysis.catalog.storedProperties +
      (stored.backingField? property).isSome.toNat := by
  intro stored
  rw [← (resolveAll_stubbed (calledMethods body)).storedProperties]
  unfold stored withStorage linkStorage
  split
  · exact storedProperties_linkBacking ..
  · exact Nat.le_add_right ..

private theorem tied_holdings {property : MemberId} {body : MethodBody}
    (ready : Ready (analysis.withStorage policy on property body) on)
    (typed : FieldsTyped (analysis.withStorage policy on property body)) {id : MemberId}
    {member : Member}
    (found : (analysis.withStorage policy on property body).member? id = some member)
    (notField : member.role.sort ≠ .field) :
    (analysis.tiedDependencies policy on property body).map member.holding =
      List.replicate (callsTo property (analysis.resolveAll policy (calledMethods body)).1).length
          ⟨member.role.sort, .call, decide (property = member.id)⟩ ++
        List.replicate ((analysis.withStorage policy on property body).backingField?
          property).isSome.toNat ⟨member.role.sort, .typeUse .field, false⟩ := by
  rw [tiedDependencies, List.map_append, callsTo_holdings,
    inherited_holdings ready.formed.sound ready.paired typed found notField]

private theorem linkAccessor_books (ready : Ready analysis.catalog on)
    (typed : FieldsTyped analysis.catalog)
    {property : MemberId} {owner : Member} (found : analysis.catalog.member? property = some owner)
    (isProperty : owner.isProperty) (declared : owner.declaringType = on) {method : MemberId}
    {entry : Member} (entered : analysis.catalog.member? method = some entry)
    (isMethod : entry.isMethod) {definition : MethodDefinition} {body : MethodBody}
    {outcome : AccessorLink}
    (succeeded : (analysis.linkAccessor policy on property method definition body).1 = .ok outcome) :
    analysis.catalog.Books (accessorStatistics outcome)
      (analysis.linkAccessor policy on property method definition body).2.catalog := by
  have storing : Grows policy analysis.catalog (analysis.withStorage policy on property body) :=
    withStorage_grows ready.formed.sound found declared body
  have readyStored : Ready (analysis.withStorage policy on property body) on :=
    ready.grown storing fun _ _ => by rw [recordedCount, withStorage_recorded, recordedCount]
  have typedStored := typed.grown storing readyStored.fieldsOnce
  -- The two members that get the dependencies: a method, and the property.
  obtain ⟨_, methodFound, methodExtended⟩ := storing.extends.member? entered
  obtain ⟨accessor, accessorFound, accessorMethod⟩ := receiver_isMethod readyStored.formed methodFound
    (methodExtended.isMethod.trans isMethod) property definition.form
  obtain ⟨stored, storedFound, extended⟩ := storing.extends.member? found
  have accessorSort := Member.sort_of_isMethod accessorMethod
  have storedSort := Member.sort_of_isProperty (extended.isProperty.trans isProperty)
  have own : property = stored.id := (readyStored.formed.memberId storedFound).symm
  have different : property ≠ accessor.id := by
    rw [readyStored.formed.memberId accessorFound]
    intro same
    rw [← same, storedFound] at accessorFound
    cases accessorFound
    rw [accessorSort] at storedSort
    cases storedSort
  rcases linkAccessor_cases policy on property method definition body with
    ⟨_, ok, final⟩ | ⟨_, failed, _⟩
  · rw [ok] at succeeded
    cases succeeded
    rw [final]
    obtain ⟨later, laterFound, laterExtended⟩ := (extends_addDependencies
      (receiver (analysis.withStorage policy on property body) property method definition.form)
      (analysis.tiedDependencies policy on property body)).member? storedFound
    refine ⟨⟨(callsTo property (analysis.resolveAll policy (calledMethods body)).1).length,
      fun counted => ?_⟩, ?_⟩
    · rw [tally_addDependencies laterFound, laterExtended.holding,
        tally_addDependencies accessorFound, withStorage_tally,
        tied_holdings readyStored typedStored accessorFound (by simp [accessorSort]),
        tied_holdings readyStored typedStored storedFound (by simp [storedSort]),
        accessorSort, storedSort, decide_eq_true own, decide_eq_false different]
      simp only [accessorStatistics, Statistics.holdings, List.countP_append, countP_replicate_eq,
        Nat.zero_add]
      omega
    · rw [storedProperties_addDependencies, storedProperties_addDependencies]
      exact withStorage_storedProperties property body
  · rw [failed] at succeeded
    cases succeeded

private theorem tieAccessor_books (ready : Ready analysis.catalog on)
    (typed : FieldsTyped analysis.catalog)
    {method : MemberId} {entry : Member} (entered : analysis.catalog.member? method = some entry)
    (isMethod : entry.isMethod) {definition : MethodDefinition} {outcome : AccessorLink}
    (succeeded : (analysis.tieAccessor policy on method definition).1 = .ok outcome) :
    analysis.catalog.Books (accessorStatistics outcome)
      (analysis.tieAccessor policy on method definition).2.catalog := by
  rcases tieAccessor_cases policy on method definition with
    ⟨property, body, searched, tied, _, unchanged, linked⟩ |
      ⟨_, unchanged, unlinked | ⟨_, failed⟩⟩
  · obtain ⟨owner, found, isProperty, declared⟩ := tied?_declared ready.formed.sound tied
    rw [← unchanged] at ready typed entered found ⊢
    rw [linked] at succeeded ⊢
    exact linkAccessor_books ready typed found isProperty declared entered isMethod succeeded
  · rw [unlinked] at succeeded
    cases succeeded
    rw [unchanged]
    exact .refl _ rfl
  · rw [failed] at succeeded
    cases succeeded

/-! ## Methods -/

variable {options : Options}

private theorem mem_typeUses {use : TypeUse} {origin : MemberId} {references : List TypeReference} :
    ∀ dependency ∈ (analysis.typeUses use origin references).1,
      dependency.kind = .typeUse use ∧ dependency.origin = origin := by
  intro dependency there
  obtain ⟨target, _, rfl⟩ := List.mem_map.mp there
  exact ⟨rfl, rfl⟩

theorem typeUses_stubbed (use : TypeUse) (origin : MemberId) (references : List TypeReference) :
    analysis.catalog.Stubbed (analysis.typeUses use origin references).2.catalog :=
  .of_sameEntries (typesFor_sameEntries references)

private theorem methodCalls_books (ready : Ready analysis.catalog on)
    (typed : FieldsTyped analysis.catalog)
    {id : MemberId} {entry : Member} (entered : analysis.catalog.member? id = some entry)
    (isMethod : entry.isMethod) {method : MethodDefinition} {calls : List Dependency}
    {statistics : Statistics}
    (succeeded : (analysis.methodCalls options on id method).1 = .ok (calls, statistics)) :
    analysis.catalog.Books { statistics with callDependencies := 0 }
        (analysis.methodCalls options on id method).2.catalog ∧
      statistics.callDependencies = calls.length ∧ ∃ targets, calls = callsTo id targets := by
  rcases methodCalls_cases options on id method with ⟨_, none⟩ | ⟨body, _, _, after, answer⟩ |
    ⟨body, _, _, after, answer⟩
  · rw [none] at succeeded ⊢
    cases succeeded
    exact ⟨.refl _ rfl, rfl, [], rfl⟩
  · rw [answer] at succeeded
    cases tied : (analysis.tieAccessor options.callPolicy on id method).1 with
    | error error => rw [tied] at succeeded; cases succeeded
    | ok outcome =>
        rw [tied] at succeeded
        cases succeeded
        have booked := tieAccessor_books ready typed entered isMethod tied
        rw [after]
        cases outcome <;> exact ⟨booked, rfl, [], rfl⟩
  · rw [answer] at succeeded
    cases succeeded
    rw [after]
    have attached : analysis.catalog.Books
        { backingFieldCalls := (analysis.attachStoredCalls options.callPolicy on body).1 }
        (analysis.attachStoredCalls options.callPolicy on body).2.catalog :=
      attachStoredCalls_books ready.formed.sound body
    have scanned : (analysis.attachStoredCalls options.callPolicy on body).2.catalog.Stubbed
        ((analysis.attachStoredCalls options.callPolicy on body).2.callUses options.callPolicy id
          (some body)).2.catalog := resolveAll_stubbed _
    have booked := attached.merge (scanned.books (rfl : Statistics.holdings { unresolvedCalls :=
      ((analysis.attachStoredCalls options.callPolicy on body).2.callUses options.callPolicy id
        (some body)).1.unresolved } 0 = []))
    simp only [Statistics.merge, Nat.zero_add, Nat.add_zero] at booked
    exact ⟨booked, rfl, _, rfl⟩

private theorem own_books {catalog : Catalog} {id : MemberId} {member : Member}
    (sound : catalog.Sound) (found : catalog.member? id = some member) (isMethod : member.isMethod)
    {signature body : List Dependency}
    (ofSignature : ∀ dependency ∈ signature, dependency.kind = .typeUse .signature ∧
      dependency.origin = id)
    (ofBody : ∀ dependency ∈ body, dependency.kind = .typeUse .body ∧ dependency.origin = id)
    (targets : List (Option MemberId)) :
    catalog.Books
      { methods := 1
        signatureDependencies := signature.length
        bodyTypeDependencies := body.length
        callDependencies := (callsTo id targets).length }
      (catalog.addDependencies id (signature ++ body ++ callsTo id targets)) := by
  have own := sound.memberId found
  refine books_addDependencies found 0 fun counted => ?_
  rw [List.map_append, List.map_append, callsTo_holdings, decide_eq_true own.symm,
    Member.map_holding fun dependency there => ⟨(ofSignature dependency there).1,
      decide_eq_true ((ofSignature dependency there).2.trans own.symm)⟩,
    Member.map_holding fun dependency there => ⟨(ofBody dependency there).1,
      decide_eq_true ((ofBody dependency there).2.trans own.symm)⟩,
    Member.sort_of_isMethod isMethod]
  simp [Statistics.holdings]

theorem Ready.typeUses (ready : Ready analysis.catalog on) (use : TypeUse) (origin : MemberId)
    (references : List TypeReference) :
    Ready (analysis.typeUses use origin references).2.catalog on := by
  have grows : Grows .stubExternal analysis.catalog
      (analysis.typeUses use origin references).2.catalog := typeUses_grows ..
  exact ready.grown grows fun _ _ => by rw [recordedCount, typeUses_recorded, recordedCount]

private theorem extractKnownMethod_books (ready : Ready analysis.catalog on)
    (typed : FieldsTyped analysis.catalog) {id : MemberId} {entry : Member}
    (entered : analysis.catalog.member? id = some entry) (isMethod : entry.isMethod)
    {method : MethodDefinition} {statistics : Statistics}
    (succeeded : (analysis.extractKnownMethod options on id method).1 = .ok statistics) :
    analysis.catalog.Books statistics
      (analysis.extractKnownMethod options on id method).2.catalog := by
  have opened := @extractKnownMethod_cases analysis options on id method
  have ofSignature := @mem_typeUses analysis .signature id method.signatureTypes
  have ofBody : ∀ dependency ∈ ((analysis.signatureUses id method).2.bodyUses id method.body).1,
      dependency.kind = .typeUse .body ∧ dependency.origin = id := mem_typeUses
  have grown : Grows options.callPolicy analysis.catalog
      ((analysis.signatureUses id method).2.bodyUses id method.body).2.catalog :=
    .trans (typeUses_grows ..) (typeUses_grows ..)
  have looked : analysis.catalog.Stubbed
      ((analysis.signatureUses id method).2.bodyUses id method.body).2.catalog :=
    (typeUses_stubbed ..).trans (typeUses_stubbed ..)
  have readyUsed : Ready ((analysis.signatureUses id method).2.bodyUses id method.body).2.catalog on :=
    (ready.typeUses ..).typeUses ..
  dsimp only at opened
  generalize (analysis.signatureUses id method).2.bodyUses id method.body = used
    at opened ofBody grown looked readyUsed
  have typedUsed := typed.grown grown readyUsed.fieldsOnce
  rcases opened with ⟨calls, others, called, ok, final⟩ | ⟨error, _, failed⟩
  · rw [ok] at succeeded
    cases succeeded
    rw [final]
    obtain ⟨booked, counted, targets, rfl⟩ :=
      methodCalls_books readyUsed typedUsed (looked.member? entered) isMethod called
    have calling : Grows options.callPolicy used.2.catalog
        (used.2.methodCalls options on id method).2.catalog :=
      methodCalls_grows readyUsed.formed.sound on id method
    obtain ⟨later, found, extended⟩ := calling.extends.member? (looked.member? entered)
    have recorded := own_books (calling.sound readyUsed.formed.sound) found
      (extended.isMethod.trans isMethod) ofSignature ofBody targets
    have start : analysis.catalog.Books {} used.2.catalog := looked.books rfl
    have total := (start.merge booked).merge recorded
    simp only [Statistics.merge, Nat.zero_add, Nat.add_zero, counted] at total ⊢
    exact total
  · rw [failed] at succeeded
    cases succeeded

private theorem extractMethod_books (ready : Ready analysis.catalog on)
    (typed : FieldsTyped analysis.catalog) {method : MethodDefinition} {statistics : Statistics}
    (succeeded : (analysis.extractMethod options on method).1 = .ok statistics) :
    analysis.catalog.Books statistics (analysis.extractMethod options on method).2.catalog := by
  unfold extractMethod at succeeded ⊢
  cases entered : analysis.catalog.methodNamed? on method.fullName with
  | none =>
      rw [entered] at succeeded
      cases succeeded
      exact .refl _ rfl
  | some id =>
      rw [entered] at succeeded
      obtain ⟨_, entry, found, isMethod, _⟩ := methodNamed?_eq_some_iff.mp entered
      exact extractKnownMethod_books ready typed found isMethod succeeded

/-! ## Whole analyses -/

/-- The counts of the methods visited so far account for what the catalog holds beyond `start`. -/
theorem books_extraction {start : Catalog} :
    KeptByExtraction options fun _ statistics catalog =>
      FieldsTyped catalog ∧ start.Books statistics catalog := by
  intro analysis on method done total statistics ready ok before
  have grows : Grows options.callPolicy analysis.catalog
      (analysis.extractMethod options on method).2.catalog :=
    extractMethod_grows ready.formed.sound on method
  exact ⟨before.1.grown grows (ready.extractMethod ok).fieldsOnce,
    before.2.merge (extractMethod_books ready before.1 ok)⟩

section IsEntry

variable {definition : MemberDefinition} {member : Member} (isEntry : IsEntry on definition member)
include isEntry

private theorem IsEntry.fieldTyped (isField : member.isField) :
    ∃ target, member.dependencies = #[.onType .field member.id target] := by
  cases isEntry with
  | field definition target id => exact ⟨target, rfl⟩
  | method definition returnType parameters genericParameters id => cases isField
  | property definition target getter setter id => cases isField

theorem IsEntry.tally {counted : Holding → Bool}
    (field : counted ⟨.field, .typeUse .field, true⟩ = false)
    (property : counted ⟨.property, .typeUse .property, true⟩ = false) :
    member.tally counted = 0 := by
  cases isEntry with
  | field definition target id =>
      simpa [Member.tally, Member.holding, MemberRole.sort, Dependency.kind, Dependency.origin,
        fieldEntry] using field
  | method definition returnType parameters genericParameters id => rfl
  | property definition target getter setter id =>
      simpa [Member.tally, Member.holding, MemberRole.sort, Dependency.kind, Dependency.origin,
        propertyEntry] using property

theorem IsEntry.isStored : member.isStored = false := by
  cases isEntry <;> rfl

end IsEntry

theorem allocated_isEntry (metadata : Metadata) {member : Member}
    (there : member ∈ (allocate {} metadata).2.catalog.members.toList) :
    ∃ definition, IsEntry member.declaringType definition member := by
  obtain ⟨index, inRange, rfl⟩ := List.mem_iff_getElem.mp there
  obtain ⟨length, entries⟩ := List.forall₂_iff_get.mp (allocated_membersInOrder metadata)
  exact ⟨_, (entries index (length ▸ inRange) inRange).2⟩

theorem allocated_fieldsTyped (metadata : Metadata) :
    FieldsTyped (allocate {} metadata).2.catalog := by
  intro id member found isField
  obtain ⟨definition, isEntry⟩ := allocated_isEntry metadata
    (Array.mem_toList_iff.mpr (Array.mem_of_getElem? found))
  obtain ⟨target, typed⟩ := isEntry.fieldTyped isField
  refine ⟨target, ?_⟩
  rw [recordedDependencies, found, Option.elim_some, typed,
    (allocated_wellFormed metadata).memberId found]

theorem allocated_tally (metadata : Metadata) {counted : Holding → Bool}
    (field : counted ⟨.field, .typeUse .field, true⟩ = false)
    (property : counted ⟨.property, .typeUse .property, true⟩ = false) :
    (allocate {} metadata).2.catalog.tally counted = 0 := by
  rw [tally_eq, memberTotal, List.sum_eq_zero_iff_forall_eq_nat]
  intro value listed
  obtain ⟨member, there, rfl⟩ := List.mem_map.mp listed
  obtain ⟨definition, isEntry⟩ := allocated_isEntry metadata there
  exact isEntry.tally field property

theorem allocated_storedProperties (metadata : Metadata) :
    (allocate {} metadata).2.catalog.storedProperties = 0 := by
  refine List.countP_eq_zero.mpr fun member there => ?_
  obtain ⟨definition, isEntry⟩ := allocated_isEntry metadata there
  simp [isEntry.isStored]

theorem built_books {metadata : Metadata} {architecture : Architecture}
    (built : (Architecture.build options metadata).1 = .ok architecture) :
    (∃ accessorCalls, ∀ counted : Holding → Bool,
      counted ⟨.field, .typeUse .field, true⟩ = false →
      counted ⟨.property, .typeUse .property, true⟩ = false →
      architecture.catalog.tally counted =
        (architecture.statistics.holdings accessorCalls).countP counted) ∧
      architecture.catalog.storedProperties ≤ architecture.statistics.backingFieldsLinked := by
  obtain ⟨succeeded, held, mirrors⟩ := build_mirrors built
  obtain ⟨_, ⟨accessorCalls, tally⟩, stored⟩ := books_extraction.extracted succeeded
    ⟨allocated_fieldsTyped metadata, .refl _ rfl⟩
  refine ⟨⟨accessorCalls, fun counted field property => ?_⟩, ?_⟩
  · rw [mirrors.tally, tally, allocated_tally metadata field property, Nat.zero_add]
  · rwa [allocated_storedProperties, Nat.zero_add, ← mirrors.storedProperties] at stored

end Analysis

end MemberGraph
