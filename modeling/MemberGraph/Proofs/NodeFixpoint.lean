import MemberGraph.Proofs.NamedRun
import MemberGraph.Proofs.StoredCalls

/-!
Extracting a type a second time. The first extraction leaves every name of the methods settled, so the
second adds no type and no member. Its counts are those of the first, apart from the one of accessors
whose property has a backing field, and a method that is no accessor gets the same dependencies again.
-/

set_option autoImplicit false

namespace MemberGraph

namespace Catalog

/-! ## Catalogs that differ in dependencies and links only -/

/-- Two catalogs have the same types and as many members, under the same names. -/
structure SameNodes (old new : Catalog) : Prop where
  types : new.types = old.types
  typeIndex : new.typeIndex = old.typeIndex
  memberIndex : new.memberIndex = old.memberIndex
  members : new.members.size = old.members.size

section SameNodes

variable {catalog : Catalog}

theorem SameNodes.refl (catalog : Catalog) : catalog.SameNodes catalog := ⟨rfl, rfl, rfl, rfl⟩

theorem SameNodes.trans {first second third : Catalog} (before : first.SameNodes second)
    (after : second.SameNodes third) : first.SameNodes third where
  types := after.types.trans before.types
  typeIndex := after.typeIndex.trans before.typeIndex
  memberIndex := after.memberIndex.trans before.memberIndex
  members := after.members.trans before.members

theorem sameNodes_updateMember (id : MemberId) (change : Member → Member) :
    catalog.SameNodes (catalog.updateMember id change) where
  types := rfl
  typeIndex := rfl
  memberIndex := rfl
  members := Array.size_modify ..

private theorem sameNodes_linkStorage (on : TypeId) (property : MemberId) (body : MethodBody) :
    catalog.SameNodes (Analysis.linkStorage catalog on property body) := by
  unfold Analysis.linkStorage
  split
  · exact linkBacking_induction (fun id change _ before => before.trans
      (sameNodes_updateMember id change)) (.refl catalog) _ _
  · exact .refl catalog

end SameNodes

/-! ## Methods whose names are settled -/

/-- The operands that are resolved when a method is extracted. Those of an accessor without property
are not. -/
def resolvedOperands (catalog : Catalog) (on : TypeId) (method : MethodDefinition) :
    List MethodReference :=
  method.body.elim [] fun body =>
    if method.isAccessor then
      if (catalog.tied? on method).isSome then Analysis.calledMethods body else []
    else body.instructions.filterMap Instruction.method?

structure SettledMethod (catalog : Catalog) (policy : CallPolicy) (on : TypeId)
    (method : MethodDefinition) : Prop where
  types : ∀ reference ∈ method.mentionedTypes, (catalog.typeNamed? reference.fullName).isSome
  operands : ∀ reference ∈ catalog.resolvedOperands on method, catalog.Settled policy reference

theorem Grows.resolvedOperands {policy : CallPolicy} {old new : Catalog}
    (grows : Grows policy old new) (sound : old.Sound) {on : TypeId} (defined : old.Defined on)
    (method : MethodDefinition) :
    new.resolvedOperands on method = old.resolvedOperands on method := by
  unfold Catalog.resolvedOperands
  rw [grows.tied? sound defined]

theorem SettledMethod.grown {policy : CallPolicy} {old new : Catalog} {on : TypeId}
    {method : MethodDefinition} (settled : old.SettledMethod policy on method) (sound : old.Sound)
    (defined : old.Defined on) (grows : Grows policy old new) :
    new.SettledMethod policy on method where
  types reference there := grows.extends.typeNamed?_isSome (settled.types reference there)
  operands reference there := by
    rw [grows.resolvedOperands sound defined] at there
    exact (settled.operands reference there).extended sound grows.extends

end Catalog

namespace Analysis

open Catalog

variable {analysis : Analysis} {policy : CallPolicy} {options : Options} {on : TypeId}

/-! ## The first extraction settles the names of a method -/

private theorem linkAccessor_settles (sound : analysis.catalog.Sound) {property method : MemberId}
    {definition : MethodDefinition} {body : MethodBody} :
    ∀ reference ∈ calledMethods body,
      (analysis.linkAccessor policy on property method definition body).2.catalog.Settled policy
        reference := by
  intro reference there
  have resolving : Grows policy analysis.catalog
      (analysis.resolveAll policy (calledMethods body)).2.catalog := resolveAll_grows sound _
  have storing : (analysis.resolveAll policy (calledMethods body)).2.catalog.Extends
      (analysis.withStorage policy on property body) := by
    unfold withStorage linkStorage
    split
    · exact extends_linkBacking _ _
    · exact .refl _
  have settled : Settled _ policy reference := resolveAll_settles sound _ reference there
  rcases linkAccessor_cases policy on property method definition body with
    ⟨_, _, recorded⟩ | ⟨_, _, stored⟩
  · rw [recorded]
    exact settled.extended (resolving.sound sound)
      (storing.trans ((extends_addDependencies _ _).trans (extends_addDependencies _ _)))
  · rw [stored]
    exact settled.extended (resolving.sound sound) storing

private theorem methodCalls_settles (sound : analysis.catalog.Sound) (id : MemberId)
    (method : MethodDefinition) :
    ∀ reference ∈ analysis.catalog.resolvedOperands on method,
      (analysis.methodCalls options on id method).2.catalog.Settled options.callPolicy reference := by
  intro reference there
  unfold resolvedOperands at there
  rcases @methodCalls_cases analysis options on id method with
    ⟨noBody, _⟩ | ⟨body, hasBody, accessor, final, _⟩ | ⟨body, hasBody, ordinary, final, _⟩
  · rw [noBody] at there
    cases there
  · rw [hasBody, Option.elim_some, if_pos accessor] at there
    rw [final]
    rcases @tieAccessor_cases analysis options.callPolicy on id method with
      ⟨property, sameBody, searched, tied, bodyToo, same, opened⟩ | ⟨untied, _⟩
    · rw [hasBody] at bodyToo
      cases bodyToo
      rw [tied, Option.isSome_some, if_pos rfl] at there
      rw [opened]
      exact linkAccessor_settles (same ▸ sound) reference there
    · rw [untied] at there
      cases there
  · rw [hasBody, Option.elim_some, ordinary, if_neg Bool.false_ne_true] at there
    rw [final]
    have attaching : Grows options.callPolicy analysis.catalog
        (analysis.attachStoredCalls options.callPolicy on body).2.catalog :=
      attachStoredCalls_grows sound on body
    exact resolveAll_settles (attaching.sound sound) _ reference there

private theorem extractMethod_settles (formed : analysis.catalog.WellFormed)
    (defined : analysis.catalog.Defined on) {method : MethodDefinition} {id : MemberId}
    (entered : analysis.catalog.methodNamed? on method.fullName = some id) :
    (analysis.extractMethod options on method).2.catalog.SettledMethod options.callPolicy on
      method := by
  have extracting : Grows options.callPolicy analysis.catalog
      (analysis.extractMethod options on method).2.catalog :=
    extractMethod_grows formed.sound on method
  have typed := analysis.bodyUses_signatureUses id method
  have typing : Grows options.callPolicy analysis.catalog
      (analysis.typesFor method.mentionedTypes).2.catalog := typesFor_grows _
  have formedTyped := typing.wellFormed formed
  have calling : Grows options.callPolicy (analysis.typesFor method.mentionedTypes).2.catalog
      ((analysis.typesFor method.mentionedTypes).2.methodCalls options on id method).2.catalog :=
    methodCalls_grows formedTyped.sound on id method
  have final : ((analysis.typesFor method.mentionedTypes).2.methodCalls options on id
      method).2.catalog.Extends (analysis.extractMethod options on method).2.catalog := by
    simp only [extractMethod, entered]
    rcases @extractKnownMethod_cases analysis options on id method with
      ⟨_, _, _, _, recorded⟩ | ⟨_, _, failed⟩
    · rw [recorded, typed]
      exact extends_addDependencies _ _
    · rw [failed, typed]
      exact .refl _
  constructor
  · intro reference there
    exact (calling.extends.trans final).typeNamed?_isSome (typesFor_settles _ reference there)
  · intro reference there
    rw [extracting.resolvedOperands formed.sound defined,
      ← typing.resolvedOperands formed.sound defined] at there
    exact (methodCalls_settles formedTyped.sound id method reference there).extended
      (calling.sound formedTyped.sound) final

/-! ## Extracting a method with settled names -/

private theorem attachCall_sameNodes {call : MethodReference × FieldReference}
    (settled : analysis.catalog.Settled policy call.1) :
    analysis.catalog.SameNodes (analysis.attachCall policy on call.1 call.2).2.catalog := by
  rcases attachCall_cases policy on call.1 call.2 with
    ⟨_, _, searched, _, same, _, _, final⟩ | ⟨_, searched, _, same, _, _, final⟩ | ⟨_, _, final⟩
  · rw [← same] at settled
    rw [final, resolve_of_settled settled, same]
    exact sameNodes_updateMember _ _
  · rw [← same] at settled
    rw [final, resolve_of_settled settled, same]
    exact .refl _
  · rw [final]
    exact .refl _

private theorem attachCalls_sameNodes (sound : analysis.catalog.Sound)
    {calls : List (MethodReference × FieldReference)}
    (settled : ∀ call ∈ calls, analysis.catalog.Settled policy call.1) :
    analysis.catalog.SameNodes (analysis.attachCalls policy on calls).2.catalog := by
  induction calls generalizing analysis with
  | nil => exact .refl _
  | cons call rest ih =>
      have first : Grows policy analysis.catalog
          (analysis.attachCall policy on call.1 call.2).2.catalog :=
        attachCall_grows sound on call.1 call.2
      have others := ih (first.sound sound) fun other there =>
        (settled other (List.mem_cons_of_mem _ there)).extended sound first.extends
      exact (attachCall_sameNodes (settled call List.mem_cons_self)).trans others

private theorem attachStoredCalls_sameNodes (sound : analysis.catalog.Sound) {body : MethodBody}
    (settled : ∀ reference ∈ body.instructions.filterMap Instruction.method?,
      analysis.catalog.Settled policy reference) :
    analysis.catalog.SameNodes (analysis.attachStoredCalls policy on body).2.catalog := by
  unfold attachStoredCalls
  split
  · refine attachCalls_sameNodes sound fun call there => ?_
    exact settled call.1 ((storedCalls_sublist _ body).subset (List.mem_map_of_mem there))
  · exact .refl _

private theorem linkAccessor_sameNodes {property method : MemberId} {definition : MethodDefinition}
    {body : MethodBody}
    (settled : ∀ reference ∈ calledMethods body, analysis.catalog.Settled policy reference) :
    analysis.catalog.SameNodes
      (analysis.linkAccessor policy on property method definition body).2.catalog := by
  have stored : analysis.catalog.SameNodes (analysis.withStorage policy on property body) := by
    unfold withStorage
    rw [resolveAll_of_settled settled]
    exact sameNodes_linkStorage on property body
  rcases linkAccessor_cases policy on property method definition body with
    ⟨_, _, recorded⟩ | ⟨_, _, kept⟩
  · rw [recorded]
    exact stored.trans ((sameNodes_updateMember _ _).trans (sameNodes_updateMember _ _))
  · rw [kept]
    exact stored

private theorem methodCalls_sameNodes (sound : analysis.catalog.Sound) (id : MemberId)
    {method : MethodDefinition}
    (settled : ∀ reference ∈ analysis.catalog.resolvedOperands on method,
      analysis.catalog.Settled options.callPolicy reference) :
    analysis.catalog.SameNodes (analysis.methodCalls options on id method).2.catalog := by
  unfold resolvedOperands at settled
  rcases @methodCalls_cases analysis options on id method with
    ⟨_, opened⟩ | ⟨body, hasBody, accessor, final, _⟩ | ⟨body, hasBody, ordinary, final, _⟩
  · rw [opened]
    exact .refl _
  · rw [hasBody, Option.elim_some, if_pos accessor] at settled
    rw [final]
    rcases @tieAccessor_cases analysis options.callPolicy on id method with
      ⟨property, sameBody, searched, tied, bodyToo, same, opened⟩ | ⟨_, unchanged, _⟩
    · rw [hasBody] at bodyToo
      cases bodyToo
      rw [tied, Option.isSome_some, if_pos rfl, ← same] at settled
      rw [opened, ← same]
      exact linkAccessor_sameNodes settled
    · rw [unchanged]
      exact .refl _
  · rw [hasBody, Option.elim_some, ordinary, if_neg Bool.false_ne_true] at settled
    have attaching : Grows options.callPolicy analysis.catalog
        (analysis.attachStoredCalls options.callPolicy on body).2.catalog :=
      attachStoredCalls_grows sound on body
    have called := resolveAll_of_settled fun reference there =>
      (settled reference there).extended sound attaching.extends
    rw [final, callUses, Option.elim_some]
    dsimp only
    rw [called]
    exact attachStoredCalls_sameNodes sound settled

private theorem extractMethod_sameNodes (sound : analysis.catalog.Sound) {method : MethodDefinition}
    (settled : ∀ id, analysis.catalog.methodNamed? on method.fullName = some id →
      analysis.catalog.SettledMethod options.callPolicy on method) :
    analysis.catalog.SameNodes (analysis.extractMethod options on method).2.catalog := by
  unfold extractMethod
  cases entered : analysis.catalog.methodNamed? on method.fullName with
  | none => exact .refl _
  | some id =>
      have settledHere := settled id entered
      have typed : ((analysis.signatureUses id method).2.bodyUses id method.body).2 = analysis :=
        (analysis.bodyUses_signatureUses id method).trans (typesFor_of_known settledHere.types)
      have called : analysis.catalog.SameNodes
          (analysis.methodCalls options on id method).2.catalog :=
        methodCalls_sameNodes sound id settledHere.operands
      dsimp only
      rcases @extractKnownMethod_cases analysis options on id method with
        ⟨_, _, _, _, recorded⟩ | ⟨_, _, failed⟩
      · rw [recorded, typed]
        exact called.trans (sameNodes_updateMember _ _)
      · rw [failed, typed]
        exact called

/-! ## Counts -/

end Analysis

/-- The counts without the one of accessors whose property has a backing field. -/
def Statistics.withoutStorage (statistics : Statistics) : Statistics :=
  { statistics with backingFieldsLinked := 0 }

private theorem Statistics.withoutStorage_merge (left right : Statistics) :
    (left.merge right).withoutStorage = left.withoutStorage.merge right.withoutStorage := rfl

namespace Analysis

open Catalog

def callCounts (catalog : Catalog) (policy : CallPolicy) (on : TypeId) (method : MethodDefinition) :
    Statistics where
  callDependencies := (ownOperands method).countP (catalog.resolvable policy)
  unresolvedCalls := (ownOperands method).countP (!catalog.resolvable policy ·)
  linkedAccessors := (catalog.tied? on method).isSome.toNat
  unlinkedAccessors :=
    (method.isAccessor && method.body.isSome && (catalog.tied? on method).isNone).toNat
  backingFieldCalls := (ownStoredCalls catalog on method).countP fun call =>
    (catalog.implemented? on .field call.2.name call.2.fullName).isSome &&
      catalog.resolvable policy call.1

def methodCounts (catalog : Catalog) (policy : CallPolicy) (on : TypeId)
    (method : MethodDefinition) : Statistics :=
  if (catalog.methodNamed? on method.fullName).isSome then
    (callCounts catalog policy on method).merge
      { methods := 1
        signatureDependencies := method.signatureTypes.length
        bodyTypeDependencies := (method.body.elim [] MethodBody.usedTypes).length }
  else {}

section Counts

variable {analysis : Analysis} {policy : CallPolicy} {options : Options} {on : TypeId}

theorem callCounts_grows {old new : Catalog} (grows : Grows policy old new)
    (formed : old.WellFormed) (defined : old.Defined on) :
    callCounts new policy on = callCounts old policy on := by
  funext method
  unfold callCounts
  simp only [show new.resolvable policy = old.resolvable policy from
      funext (grows.resolvable formed), grows.tied? formed.sound defined,
    grows.implemented? formed.sound defined, ownStoredCalls_grows grows defined]

theorem methodCounts_grows {old new : Catalog} (grows : Grows policy old new)
    (formed : old.WellFormed) (defined : old.Defined on) :
    methodCounts new policy on = methodCounts old policy on := by
  funext method
  unfold methodCounts
  rw [grows.methodNamed? formed (.inl defined), callCounts_grows grows formed defined]

private theorem attachCalls_fst (formed : analysis.catalog.WellFormed)
    (defined : analysis.catalog.Defined on) (calls : List (MethodReference × FieldReference)) :
    (analysis.attachCalls policy on calls).1 = calls.countP fun call =>
      (analysis.catalog.implemented? on .field call.2.name call.2.fullName).isSome &&
        analysis.catalog.resolvable policy call.1 := by
  have attaching : Grows policy analysis.catalog (analysis.attachCalls policy on calls).2.catalog :=
    attachCalls_grows formed.sound on calls
  rw [(attachCalls_surfaced formed defined calls .refl).1, List.length_filterMap_eq_countP]
  refine List.countP_congr fun call _ => ?_
  rw [← attaching.resolvable formed, ← resolve_isSome (attaching.wellFormed formed),
    ← (propertyOf_eq ..).1, surfacedCall?]
  cases (analysis.propertyOf on .field call.2.name call.2.fullName).1 with
  | none => rfl
  | some property =>
      cases ((analysis.attachCalls policy on calls).2.resolve policy call.1).1 <;> rfl

private theorem methodCalls_counts (formed : analysis.catalog.WellFormed)
    (defined : analysis.catalog.Defined on) {id : MemberId} {method : MethodDefinition}
    {calls : List Dependency} {statistics : Statistics}
    (succeeded : (analysis.methodCalls options on id method).1 = .ok (calls, statistics)) :
    statistics.withoutStorage = callCounts analysis.catalog options.callPolicy on method := by
  rcases @methodCalls_cases analysis options on id method with
    ⟨noBody, opened⟩ | ⟨body, hasBody, accessor, _, outcome⟩ |
    ⟨body, hasBody, ordinary, _, outcome⟩
  · rw [opened] at succeeded
    cases succeeded
    have untied : analysis.catalog.tied? on method = none := by
      unfold tied?
      rw [noBody]
      cases method.form.convention? <;> rfl
    simp [Statistics.withoutStorage, callCounts, ownOperands_eq, ownStoredCalls, noBody, untied]
  · rw [outcome] at succeeded
    have none : callCounts analysis.catalog options.callPolicy on method =
        { linkedAccessors := (analysis.catalog.tied? on method).isSome.toNat
          unlinkedAccessors := (analysis.catalog.tied? on method).isNone.toNat } := by
      simp [callCounts, ownOperands_eq, ownStoredCalls, accessor, hasBody]
    rw [none]
    rcases @tieAccessor_cases analysis options.callPolicy on id method with
      ⟨property, _, searched, tied, _, _, opened⟩ | ⟨untied, _, unlinked | ⟨_, failed⟩⟩
    · rw [opened] at succeeded
      rcases @linkAccessor_cases searched options.callPolicy on property id method _ with
        ⟨_, linked, _⟩ | ⟨_, failed, _⟩
      · rw [linked] at succeeded
        cases succeeded
        rw [tied]
        rfl
      · rw [failed] at succeeded
        cases succeeded
    · rw [unlinked] at succeeded
      cases succeeded
      rw [untied]
      rfl
    · rw [failed] at succeeded
      cases succeeded
  · rw [outcome] at succeeded
    cases succeeded
    have attaching : Grows options.callPolicy analysis.catalog
        (analysis.attachStoredCalls options.callPolicy on body).2.catalog :=
      attachStoredCalls_grows formed.sound on body
    obtain ⟨found, missing⟩ :=
      @callUses_counts options.callPolicy _ (attaching.wellFormed formed) id body
    rw [show (analysis.attachStoredCalls options.callPolicy on body).2.catalog.resolvable
      options.callPolicy = _ from funext (attaching.resolvable formed)] at found missing
    obtain ⟨entry, typeFound, notStub⟩ := defined
    have opened : analysis.attachStoredCalls options.callPolicy on body =
        analysis.attachCalls options.callPolicy on (storedCalls entry.fullName body) := by
      simp only [attachStoredCalls, typeFound]
    rw [Statistics.withoutStorage, found, missing, opened,
      attachCalls_fst formed ⟨entry, typeFound, notStub⟩]
    simp [callCounts, ownOperands_eq, ownStoredCalls, ordinary, hasBody, typeFound,
      tied?_of_not_accessor _ ordinary]

private theorem extractMethod_counts (formed : analysis.catalog.WellFormed)
    (defined : analysis.catalog.Defined on) {method : MethodDefinition} {statistics : Statistics}
    (succeeded : (analysis.extractMethod options on method).1 = .ok statistics) :
    statistics.withoutStorage = methodCounts analysis.catalog options.callPolicy on method := by
  unfold methodCounts
  unfold extractMethod at succeeded
  cases entered : analysis.catalog.methodNamed? on method.fullName with
  | none =>
      rw [entered] at succeeded
      cases succeeded
      rfl
  | some id =>
      simp only [entered] at succeeded
      have typing : Grows options.callPolicy analysis.catalog
          ((analysis.signatureUses id method).2.bodyUses id method.body).2.catalog :=
        Relation.ReflTransGen.trans (typeUses_grows ..) (typeUses_grows ..)
      rcases @extractKnownMethod_cases analysis options on id method with
        ⟨calls, given, called, answer, _⟩ | ⟨_, _, failed⟩
      · have counts := methodCalls_counts (typing.wellFormed formed) (typing.defined defined) called
        rw [callCounts_grows typing formed defined] at counts
        rw [answer] at succeeded
        cases succeeded
        rw [Statistics.withoutStorage_merge, counts, signatureUses, bodyUses, typeUses_length,
          typeUses_length]
        rfl
      · rw [failed] at succeeded
        cases succeeded

/-- The counts of an extraction, without that one, are told by the catalog that it starts from. -/
theorem extractMethods_counts (formed : analysis.catalog.WellFormed)
    (defined : analysis.catalog.Defined on) {methods : List MethodDefinition}
    {statistics : Statistics}
    (succeeded : (analysis.extractMethods options on methods).1 = .ok statistics) :
    statistics.withoutStorage =
      (methods.map (methodCounts analysis.catalog options.callPolicy on)).foldr .merge {} := by
  induction methods generalizing analysis statistics with
  | nil =>
      cases succeeded
      rfl
  | cons method rest ih =>
      obtain ⟨first, others, ok, okRest, rfl⟩ := extractMethods_ok succeeded
      have step : Grows options.callPolicy analysis.catalog
          (analysis.extractMethod options on method).2.catalog :=
        extractMethod_grows formed.sound on method
      have further := ih (step.wellFormed formed) (step.defined defined) okRest
      rw [methodCounts_grows step formed defined] at further
      rw [Statistics.withoutStorage_merge, extractMethod_counts formed defined ok, further]
      rfl

end Counts

/-! ## Runs -/

def SettledMethods (catalog : Catalog) (policy : CallPolicy) (on : TypeId)
    (methods : List MethodDefinition) : Prop :=
  ∀ method ∈ methods, ∀ id, catalog.methodNamed? on method.fullName = some id →
    catalog.SettledMethod policy on method

section Runs

variable {analysis : Analysis} {policy : CallPolicy} {options : Options} {on : TypeId}
  {methods : List MethodDefinition} {statistics : Statistics}

theorem SettledMethods.grown {old new : Catalog} (settled : SettledMethods old policy on methods)
    (formed : old.WellFormed) (defined : old.Defined on) (grows : Grows policy old new) :
    SettledMethods new policy on methods := by
  intro method there id entered
  rw [grows.methodNamed? formed (.inl defined)] at entered
  exact (settled method there id entered).grown formed.sound defined grows

private theorem extractMethods_settles (formed : analysis.catalog.WellFormed)
    (defined : analysis.catalog.Defined on)
    (succeeded : (analysis.extractMethods options on methods).1 = .ok statistics) :
    SettledMethods (analysis.afterMethods options on methods) options.callPolicy on methods := by
  induction methods generalizing analysis statistics with
  | nil => exact fun _ there => by cases there
  | cons method rest ih =>
      obtain ⟨first, others, ok, okRest, _⟩ := extractMethods_ok succeeded
      have step : Grows options.callPolicy analysis.catalog
          (analysis.extractMethod options on method).2.catalog :=
        extractMethod_grows formed.sound on method
      have formedNext := step.wellFormed formed
      have definedNext := step.defined defined
      have further : Grows options.callPolicy (analysis.extractMethod options on method).2.catalog
          ((analysis.extractMethod options on method).2.afterMethods options on rest) :=
        extractMethods_grows formedNext.sound on rest
      rw [extractMethods_cons ok]
      intro other there id entered
      rcases List.mem_cons.mp there with rfl | there
      · rw [further.methodNamed? formedNext (.inl definedNext),
          step.methodNamed? formed (.inl defined)] at entered
        exact (extractMethod_settles formed defined entered).grown formedNext.sound definedNext
          further
      · exact ih formedNext definedNext okRest other there id entered

private theorem extractMethods_sameNodes (formed : analysis.catalog.WellFormed)
    (defined : analysis.catalog.Defined on)
    (settled : SettledMethods analysis.catalog options.callPolicy on methods)
    (succeeded : (analysis.extractMethods options on methods).1 = .ok statistics) :
    analysis.catalog.SameNodes (analysis.afterMethods options on methods) := by
  induction methods generalizing analysis statistics with
  | nil => exact .refl _
  | cons method rest ih =>
      obtain ⟨first, others, ok, okRest, _⟩ := extractMethods_ok succeeded
      have step : Grows options.callPolicy analysis.catalog
          (analysis.extractMethod options on method).2.catalog :=
        extractMethod_grows formed.sound on method
      have here : analysis.catalog.SameNodes (analysis.extractMethod options on method).2.catalog :=
        extractMethod_sameNodes formed.sound (settled method List.mem_cons_self)
      have settledRest : SettledMethods analysis.catalog options.callPolicy on rest :=
        fun other there => settled other (List.mem_cons_of_mem _ there)
      rw [extractMethods_cons ok]
      exact here.trans (ih (step.wellFormed formed) (step.defined defined)
        (settledRest.grown formed defined step) okRest)

private theorem extractMethods_ok_later (formed : analysis.catalog.WellFormed)
    (defined : analysis.catalog.Defined on)
    (succeeded : (analysis.extractMethods options on methods).1 = .ok statistics)
    {later : Analysis} (grows : Grows options.callPolicy analysis.catalog later.catalog) :
    ∃ again, (later.extractMethods options on methods).1 = .ok again := by
  refine extractMethods_of_accepted (grows.wellFormed formed) (grows.defined defined) ?_
  rw [rejects_grows grows formed defined]
  have accepted : methods.find? (analysis.catalog.rejects on) = none := by
    cases found : methods.find? (analysis.catalog.rejects on) with
    | none => rfl
    | some method =>
        have failed : (analysis.extractMethods options on methods).1 = .error method.failure :=
          (extractMethods_error_iff formed defined).mpr (by rw [found]; rfl)
        rw [succeeded] at failed
        cases failed
  simpa using accepted

theorem extractMethods_append {before rest : List MethodDefinition}
    (succeeded : (analysis.extractMethods options on (before ++ rest)).1 = .ok statistics) :
    (∃ earlier, (analysis.extractMethods options on before).1 = .ok earlier) ∧
      (∃ others, ((analysis.extractMethods options on before).2.extractMethods options on
        rest).1 = .ok others) ∧
      analysis.afterMethods options on (before ++ rest) =
        (analysis.extractMethods options on before).2.afterMethods options on rest := by
  induction before generalizing analysis statistics with
  | nil => exact ⟨⟨_, rfl⟩, ⟨_, succeeded⟩, rfl⟩
  | cons method before ih =>
      obtain ⟨first, others, ok, okRest, _⟩ := extractMethods_ok succeeded
      obtain ⟨⟨earlier, okBefore⟩, further, final⟩ := ih okRest
      rw [extractMethods_cons_of_ok ok, List.cons_append, extractMethods_cons ok]
      exact ⟨⟨first.merge earlier, by rw [okBefore]; rfl⟩, further, final⟩

private theorem extractMethods_turn (sound : analysis.catalog.Sound)
    {before rest : List MethodDefinition} {method : MethodDefinition}
    (succeeded : (analysis.extractMethods options on (before ++ method :: rest)).1 =
      .ok statistics) :
    let turn := (analysis.extractMethods options on before).2
    Grows options.callPolicy analysis.catalog turn.catalog ∧
      (∃ counted, (turn.extractMethod options on method).1 = .ok counted) ∧
      Grows options.callPolicy (turn.extractMethod options on method).2.catalog
        (analysis.afterMethods options on (before ++ method :: rest)) := by
  intro turn
  obtain ⟨_, ⟨others, okRest⟩, final⟩ := extractMethods_append succeeded
  obtain ⟨counted, _, ok, _⟩ := extractMethods_ok okRest
  have earlier : Grows options.callPolicy analysis.catalog turn.catalog :=
    extractMethods_grows sound on before
  have step : Grows options.callPolicy turn.catalog
      (turn.extractMethod options on method).2.catalog :=
    extractMethod_grows (earlier.sound sound) on method
  refine ⟨earlier, ⟨counted, ok⟩, ?_⟩
  rw [final, extractMethods_cons ok]
  exact extractMethods_grows (step.sound (earlier.sound sound)) on rest

/-! ## What a method gets both times -/

theorem Appends.same {later old new oldToo newToo : Catalog} (formed : later.WellFormed)
    {id : MemberId} {uses : List NamedDependency} (appends : Appends later id old new uses)
    (appendsToo : Appends later id oldToo newToo uses) :
    ∃ added, recordedDependencies new id = recordedDependencies old id ++ added ∧
      recordedDependencies newToo id = recordedDependencies oldToo id ++ added := by
  obtain ⟨added, recorded, reads⟩ := appends
  obtain ⟨addedToo, recordedToo, readsToo⟩ := appendsToo
  refine ⟨added, recorded, ?_⟩
  rw [recordedToo, readsToo.unique formed reads]

private theorem extractMethod_same (formed : analysis.catalog.WellFormed)
    (defined : analysis.catalog.Defined on) {method : MethodDefinition} {id : MemberId}
    (entered : analysis.catalog.methodNamed? on method.fullName = some id)
    (plain : method.isAccessor = false)
    (succeeded : (analysis.extractMethod options on method).1 = .ok statistics) {again : Analysis}
    (grows : Grows options.callPolicy (analysis.extractMethod options on method).2.catalog
      again.catalog)
    {statisticsAgain : Statistics}
    (succeededAgain : (again.extractMethod options on method).1 = .ok statisticsAgain) :
    ∃ own,
      recordedDependencies (analysis.extractMethod options on method).2.catalog id =
        recordedDependencies analysis.catalog id ++ own ∧
      recordedDependencies (again.extractMethod options on method).2.catalog id =
        recordedDependencies again.catalog id ++ own := by
  have extracting : Grows options.callPolicy analysis.catalog
      (analysis.extractMethod options on method).2.catalog :=
    extractMethod_grows formed.sound on method
  have between : Grows options.callPolicy analysis.catalog again.catalog := extracting.trans grows
  have formedAgain := between.wellFormed formed
  have extractingAgain : Grows options.callPolicy again.catalog
      (again.extractMethod options on method).2.catalog :=
    extractMethod_grows formedAgain.sound on method
  have formedLater := extractingAgain.wellFormed formedAgain
  have first := extractMethod_appends_own formed defined entered plain succeeded formedLater
    (Grows.extends (grows.trans extractingAgain))
  have second := extractMethod_appends_own formedAgain (between.defined defined)
    (by rw [between.methodNamed? formed (.inl defined), entered]) plain succeededAgain formedLater
    (.refl _)
  rw [ownUses_grows between formed] at second
  exact first.same formedLater second

end Runs

end Analysis

open Catalog Analysis

/-- After an extraction the same extraction adds no type and no member. It counts the same, the
backing fields apart. A method definition that is no accessor's gives its method the same dependencies
when its turn comes again. A method that only such definitions give dependencies to gets the same ones
from the whole extraction. -/
theorem nodes_reach_fixpoint {analysis : Analysis} {options : Options} {on : TypeId}
    {definition : TypeDefinition} {statistics : Statistics} (formed : analysis.catalog.WellFormed)
    (defined : analysis.catalog.Defined on)
    (succeeded : (analysis.extractType options on definition).1 = .ok statistics) :
    let first := (analysis.extractType options on definition).2
    let second := first.extractType options on definition
    first.catalog.SameNodes second.2.catalog ∧
    (∃ again, second.1 = .ok again ∧ again.methods = statistics.methods ∧
      again.signatureDependencies = statistics.signatureDependencies ∧
      again.bodyTypeDependencies = statistics.bodyTypeDependencies ∧
      again.callDependencies = statistics.callDependencies ∧
      again.unresolvedCalls = statistics.unresolvedCalls ∧
      again.linkedAccessors = statistics.linkedAccessors ∧
      again.unlinkedAccessors = statistics.unlinkedAccessors ∧
      again.backingFieldCalls = statistics.backingFieldCalls) ∧
    (∀ before method rest id, definition.methods = before ++ method :: rest →
      method.isAccessor = false → analysis.catalog.methodNamed? on method.fullName = some id →
      let turn := (analysis.extractMethods options on before).2
      let turnAgain := (first.extractMethods options on before).2
      ∃ own,
        recordedDependencies (turn.extractMethod options on method).2.catalog id =
          recordedDependencies turn.catalog id ++ own ∧
        recordedDependencies (turnAgain.extractMethod options on method).2.catalog id =
          recordedDependencies turnAgain.catalog id ++ own) ∧
    ∀ id, Ordinary analysis.catalog id →
      (∀ method ∈ definition.methods, analysis.catalog.methodNamed? on method.fullName = some id →
        method.isAccessor = false) →
      ∃ added,
        recordedDependencies first.catalog id =
          recordedDependencies analysis.catalog id ++ added ∧
        recordedDependencies second.2.catalog id =
          recordedDependencies first.catalog id ++ added := by
  intro first second
  obtain ⟨firstAnswer, (firstCatalog : first.catalog = _)⟩ :=
    analysis.extractType_eq options on definition
  obtain ⟨(secondAnswer : second.1 = _), (secondCatalog : second.2.catalog = _)⟩ :=
    first.extractType_eq options on definition
  rw [firstAnswer] at succeeded
  have extracting : Grows options.callPolicy analysis.catalog first.catalog := by
    rw [firstCatalog]
    exact extractMethods_grows formed.sound on definition.methods
  have formedFirst := extracting.wellFormed formed
  have definedFirst := extracting.defined defined
  obtain ⟨again, succeededAgain⟩ := extractMethods_ok_later formed defined succeeded extracting
  have settled := extractMethods_settles formed defined succeeded
  rw [← firstCatalog] at settled
  refine ⟨?_, ⟨again, secondAnswer.trans succeededAgain, ?_⟩, ?_, ?_⟩
  · rw [secondCatalog]
    exact extractMethods_sameNodes formedFirst definedFirst settled succeededAgain
  · have counts := extractMethods_counts formedFirst definedFirst succeededAgain
    rw [methodCounts_grows extracting formed defined,
      ← extractMethods_counts formed defined succeeded] at counts
    simpa only [Statistics.withoutStorage, Statistics.mk.injEq, true_and] using counts
  · intro before method rest id split plain entered turn turnAgain
    rw [split] at succeeded succeededAgain firstCatalog
    obtain ⟨earlier, ⟨_, ok⟩, further⟩ := extractMethods_turn formed.sound succeeded
    obtain ⟨earlierAgain, ⟨_, okAgain⟩, _⟩ := extractMethods_turn formedFirst.sound succeededAgain
    rw [← firstCatalog] at further
    rw [← Grows.methodNamed? earlier formed (.inl defined)] at entered
    exact extractMethod_same (earlier.wellFormed formed) (earlier.defined defined) entered plain ok
      (further.trans earlierAgain) okAgain
  · intro id ordinary plain
    have extractingAgain : Grows options.callPolicy first.catalog second.2.catalog := by
      rw [secondCatalog]
      exact extractMethods_grows formedFirst.sound on definition.methods
    have formedSecond := extractingAgain.wellFormed formedFirst
    have once := extractMethods_appends formed ordinary formedSecond defined .refl succeeded
      (firstCatalog ▸ extractingAgain.extends) plain
    have twice := extractMethods_appends formed ordinary formedSecond defined extracting
      succeededAgain (secondCatalog ▸ .refl _) plain
    rw [← firstCatalog] at once
    rw [← secondCatalog] at twice
    exact once.same formedSecond twice

/-- Printing an order calls a method of a type that is not defined, so the first extraction adds a
stub; the second adds nothing but the four dependencies once more. -/
theorem nodes_reach_fixpoint_order :
    let analysis := (allocate {} orderMetadata).2
    let first := analysis.extractType {} ⟨0⟩ orderType
    let second := first.2.extractType {} ⟨0⟩ orderType
    analysis.catalog.WellFormed ∧ analysis.catalog.Defined ⟨0⟩ ∧
      analysis.catalog.members.size < first.2.catalog.members.size ∧
      first.2.catalog.SameNodes second.2.catalog ∧
      (∃ statistics again, first.1 = .ok statistics ∧ second.1 = .ok again ∧
        again.callDependencies = statistics.callDependencies) ∧
      Ordinary analysis.catalog ⟨2⟩ ∧ (recordedDependencies first.2.catalog ⟨2⟩).length = 4 ∧
      recordedDependencies second.2.catalog ⟨2⟩ =
        recordedDependencies first.2.catalog ⟨2⟩ ++ recordedDependencies first.2.catalog ⟨2⟩ := by
  intro analysis first second
  have formed : analysis.catalog.WellFormed := allocated_wellFormed orderMetadata
  have analyzed : (analysis.catalog.type? ⟨0⟩).any (!·.isStub) := by decide +kernel
  have ok : first.1.toOption.isSome := by decide +kernel
  have more : analysis.catalog.members.size < first.2.catalog.members.size := by decide +kernel
  have method : (analysis.catalog.member? ⟨2⟩).any (·.isMethod) := by decide +kernel
  have unlinked : analysis.catalog.isAccessor ⟨2⟩ = false := by decide +kernel
  have plain : ∀ method ∈ orderType.methods,
      analysis.catalog.methodNamed? ⟨0⟩ method.fullName = some ⟨2⟩ → method.isAccessor = false := by
    decide +kernel
  have nothing : recordedDependencies analysis.catalog ⟨2⟩ = [] := by decide +kernel
  have four : (recordedDependencies first.2.catalog ⟨2⟩).length = 4 := by decide +kernel
  clear_value analysis
  obtain ⟨entry, found, notStub⟩ := (Option.any_eq_true ..).mp analyzed
  obtain ⟨member, memberFound, isMethod⟩ := (Option.any_eq_true ..).mp method
  have defined : analysis.catalog.Defined ⟨0⟩ := ⟨entry, found, by simpa using notStub⟩
  have ordinary : Ordinary analysis.catalog ⟨2⟩ :=
    ⟨⟨member, memberFound, isMethod⟩, by simp [unlinked]⟩
  cases answer : first.1 with
  | error error =>
      rw [answer] at ok
      cases ok
  | ok statistics =>
      obtain ⟨same, ⟨again, succeeded, _, _, _, calls, _⟩, _, added⟩ :=
        nodes_reach_fixpoint formed defined answer
      obtain ⟨list, once, twice⟩ := added ⟨2⟩ ordinary plain
      rw [nothing, List.nil_append] at once
      rw [← once] at twice
      exact ⟨formed, defined, more, same, ⟨statistics, again, rfl, succeeded, calls⟩, ordinary, four,
        twice⟩

end MemberGraph
