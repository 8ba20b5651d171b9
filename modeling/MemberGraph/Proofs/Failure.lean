import MemberGraph.Proofs.DeclaredDependencies

/-!
When an extraction fails, and what it leaves behind. The one cause is a method with a body that is
flagged both as constructor and as accessor; what comes before it is recorded, and of the method
itself nothing is but stubs of the types that it mentions.
-/

set_option autoImplicit false

namespace MemberGraph

/-- Whether a method has a body but no form that its body could be read by. -/
def MethodDefinition.conflicts (method : MethodDefinition) : Bool :=
  method.body.isSome && method.isConstructor && (method.isGetter || method.isSetter)

/-- The types that a method mentions: in its signature, and then in its body. -/
def MethodDefinition.mentionedTypes (method : MethodDefinition) : List TypeReference :=
  method.returnType :: method.parameters ++ method.genericParameters ++
    method.body.elim [] fun body => body.localVariableTypes ++ typeOperands body.instructions

theorem MethodDefinition.mentionedTypes_eq (method : MethodDefinition) :
    method.mentionedTypes = method.signatureTypes ++ method.body.elim [] MethodBody.usedTypes := by
  cases body : method.body <;>
    simp [mentionedTypes, signatureTypes, MethodBody.usedTypes, typeOperands_eq, body]

def Catalog.rejects (catalog : Catalog) (on : TypeId) (method : MethodDefinition) : Bool :=
  (catalog.methodNamed? on method.fullName).isSome && method.conflicts

def MethodDefinition.failure (method : MethodDefinition) : ExtractionFailure :=
  .noConvention .constructor method.fullName

theorem MethodDefinition.convention?_eq_none_iff {method : MethodDefinition}
    (accessor : method.isAccessor) :
    method.form.convention? = none ↔ method.isConstructor := by
  cases constructed : method.isConstructor with
  | true => simp [form, constructed, MethodForm.convention?]
  | false =>
      cases getter : method.isGetter with
      | true => simp [form, constructed, getter, MethodForm.convention?]
      | false =>
          have setter : method.isSetter := by simpa [isAccessor, getter] using accessor
          simp [form, constructed, getter, setter, MethodForm.convention?]

/-- The failure that metadata leads to: that of the first method, in the order of loading, that has an
entry and conflicts. -/
def Metadata.failure? (metadata : Metadata) : Option BuildError :=
  (firstOf (·.fullName) metadata.definitions).findSome? fun definition =>
    (definition.methods.find? fun method =>
      metadata.declaresMethod definition.fullName method.fullName && method.conflicts).map
        fun method => { typeName := definition.fullName, cause := method.failure }

namespace Analysis

open Catalog

variable {analysis : Analysis} {options : Options} {on : TypeId}

/-! ## One method -/

theorem typesFor_append (analysis : Analysis) (first second : List TypeReference) :
    (analysis.typesFor (first ++ second)).2 = ((analysis.typesFor first).2.typesFor second).2 := by
  induction first generalizing analysis with
  | nil => rfl
  | cons reference rest ih => exact ih _

theorem bodyUses_signatureUses (analysis : Analysis) (id : MemberId) (method : MethodDefinition) :
    ((analysis.signatureUses id method).2.bodyUses id method.body).2 =
      (analysis.typesFor method.mentionedTypes).2 := by
  rw [method.mentionedTypes_eq, typesFor_append]
  rfl

private theorem typesFor_type? {references : List TypeReference} {id : TypeId} {entry : TypeEntry}
    (found : analysis.catalog.type? id = some entry) :
    (analysis.typesFor references).2.catalog.type? id = some entry := by
  induction references generalizing analysis with
  | nil => exact found
  | cons reference rest ih =>
      have kept : (analysis.typeFor reference).2.catalog.type? id = some entry := by
        cases known : analysis.catalog.typeNamed? reference.fullName with
        | some id => rwa [typeFor_of_known known]
        | none =>
            rw [(typeFor_of_fresh known).2]
            exact (type?_addType_iff ..).mpr (.inr found)
      exact ih kept

private theorem methodCalls_of_conflict {method : MethodDefinition} (conflicts : method.conflicts)
    (id : MemberId) :
    (analysis.methodCalls options on id method).1 = .error method.failure ∧
      (analysis.methodCalls options on id method).2.catalog = analysis.catalog := by
  rw [MethodDefinition.conflicts, Bool.and_eq_true, Bool.and_eq_true] at conflicts
  obtain ⟨⟨hasBody, constructed⟩, (accessor : method.isAccessor)⟩ := conflicts
  obtain ⟨body, hasBody⟩ := Option.isSome_iff_exists.mp hasBody
  have form : method.form = .constructor := by simp [MethodDefinition.form, constructed]
  simp [methodCalls, hasBody, accessor, tieAccessor, form, MethodForm.convention?,
    MethodDefinition.failure]

private theorem extractMethod_of_rejected {method : MethodDefinition}
    (rejected : analysis.catalog.rejects on method) :
    (analysis.extractMethod options on method).1 = .error method.failure ∧
      (analysis.extractMethod options on method).2.catalog =
        (analysis.typesFor method.mentionedTypes).2.catalog := by
  obtain ⟨entered, conflicts⟩ := Bool.and_eq_true_iff.mp rejected
  obtain ⟨id, entered⟩ := Option.isSome_iff_exists.mp entered
  simp only [extractMethod, entered]
  obtain ⟨failed, kept⟩ : (((analysis.signatureUses id method).2.bodyUses id method.body).2.methodCalls
      options on id method).1 = .error method.failure ∧ _ := methodCalls_of_conflict conflicts id
  rcases extractKnownMethod_cases options on id method with
    ⟨calls, statistics, called, _⟩ | ⟨error, called, outcome⟩
  · rw [failed] at called
    cases called
  · rw [failed] at called
    cases called
    rw [outcome, kept, bodyUses_signatureUses]
    exact ⟨rfl, rfl⟩

private theorem tieAccessor_of_convention (formed : analysis.catalog.WellFormed) {id : MemberId}
    {member : Member} (found : analysis.catalog.member? id = some member) (isMethod : member.isMethod)
    {policy : CallPolicy} {method : MethodDefinition} (fits : method.form.convention? ≠ none) :
    ∃ outcome, (analysis.tieAccessor policy on id method).1 = .ok outcome := by
  rcases tieAccessor_cases policy on id method with
    ⟨property, body, searched, tied, _, unchanged, linked⟩ | ⟨_, _, unlinked | ⟨missing, _⟩⟩
  · obtain ⟨owner, there, _, onType⟩ := tied?_declared formed.sound tied
    rw [← unchanged] at formed found there
    have grows : Grows policy searched.catalog (searched.withStorage policy on property body) :=
      withStorage_grows formed.sound there onType body
    obtain ⟨later, laterFound, extended⟩ := grows.extends.member? found
    obtain ⟨accessor, accessorFound, _⟩ := receiver_isMethod (grows.wellFormed formed) laterFound
      (extended.isMethod.trans isMethod) property method.form
    rw [linked]
    rcases linkAccessor_cases policy on property id method body with ⟨_, ok, _⟩ | ⟨missing, _⟩
    · exact ⟨_, ok⟩
    · rw [hasMember_of_member? accessorFound] at missing
      cases missing
  · exact ⟨_, unlinked⟩
  · exact absurd missing fits

private theorem methodCalls_of_plain (formed : analysis.catalog.WellFormed) {id : MemberId}
    {member : Member}
    (found : analysis.catalog.member? id = some member) (isMethod : member.isMethod)
    {method : MethodDefinition} (plain : method.conflicts = false) :
    ∃ answer, (analysis.methodCalls options on id method).1 = .ok answer := by
  rcases methodCalls_cases options on id method with ⟨_, none⟩ | ⟨body, hasBody, accessor, _, tied⟩ |
    ⟨body, _, _, _, called⟩
  · exact ⟨_, congrArg Prod.fst none⟩
  · have fits : method.form.convention? ≠ none := by
      rw [ne_eq, MethodDefinition.convention?_eq_none_iff accessor]
      have flagged : method.isGetter || method.isSetter := accessor
      simpa [MethodDefinition.conflicts, hasBody, flagged] using plain
    obtain ⟨outcome, ok⟩ : ∃ outcome,
        (analysis.tieAccessor options.callPolicy on id method).1 = .ok outcome :=
      tieAccessor_of_convention formed found isMethod fits
    exact ⟨_, by rw [tied, ok]; rfl⟩
  · exact ⟨_, called⟩

private theorem extractMethod_of_accepted (formed : analysis.catalog.WellFormed)
    {method : MethodDefinition} (accepted : analysis.catalog.rejects on method = false) :
    ∃ statistics, (analysis.extractMethod options on method).1 = .ok statistics := by
  cases entered : analysis.catalog.methodNamed? on method.fullName with
  | none => exact ⟨{}, by simp only [extractMethod, entered]⟩
  | some id =>
      obtain ⟨_, member, found, isMethod, _⟩ := methodNamed?_eq_some_iff.mp entered
      have plain : method.conflicts = false := by simpa [Catalog.rejects, entered] using accepted
      have signature : Grows options.callPolicy analysis.catalog
          (analysis.signatureUses id method).2.catalog := typeUses_grows ..
      have body : Grows options.callPolicy (analysis.signatureUses id method).2.catalog
          ((analysis.signatureUses id method).2.bodyUses id method.body).2.catalog :=
        typeUses_grows ..
      have grows := signature.trans body
      obtain ⟨later, there, extended⟩ := (Grows.extends grows).member? found
      obtain ⟨answer, called⟩ : ∃ answer, (((analysis.signatureUses id method).2.bodyUses id
          method.body).2.methodCalls options on id method).1 = .ok answer :=
        methodCalls_of_plain (Grows.wellFormed grows formed) there
          (extended.isMethod.trans isMethod) plain
      simp only [extractMethod, entered]
      rcases extractKnownMethod_cases options on id method with
        ⟨calls, statistics, _, ok, _⟩ | ⟨error, failed, _⟩
      · exact ⟨_, ok⟩
      · rw [called] at failed
        cases failed

/-! ## All methods of a type -/

theorem rejects_grows {policy : CallPolicy} {old new : Catalog} (grows : Grows policy old new)
    (formed : old.WellFormed) (defined : old.Defined on) : new.rejects on = old.rejects on := by
  funext method
  simp only [Catalog.rejects, grows.methodNamed? formed (.inl defined)]

section Methods

variable (formed : analysis.catalog.WellFormed) (defined : analysis.catalog.Defined on)
include formed defined

theorem extractMethods_of_accepted {methods : List MethodDefinition}
    (accepted : ∀ method ∈ methods, analysis.catalog.rejects on method = false) :
    ∃ statistics, (analysis.extractMethods options on methods).1 = .ok statistics := by
  induction methods generalizing analysis with
  | nil => exact ⟨{}, rfl⟩
  | cons method rest ih =>
      obtain ⟨first, ok⟩ : ∃ first, (analysis.extractMethod options on method).1 = .ok first :=
        extractMethod_of_accepted formed (accepted method (by simp))
      have grows : Grows options.callPolicy analysis.catalog
          (analysis.extractMethod options on method).2.catalog :=
        extractMethod_grows formed.sound on method
      rw [← rejects_grows grows formed defined] at accepted
      obtain ⟨others, okRest⟩ := ih (grows.wellFormed formed) (grows.defined defined)
        fun other there => accepted other (List.mem_cons_of_mem _ there)
      exact ⟨_, by rw [extractMethods_cons_of_ok ok, okRest]; rfl⟩

private theorem extractMethods_of_rejected {before : List MethodDefinition}
    {method : MethodDefinition}
    (accepted : ∀ earlier ∈ before, analysis.catalog.rejects on earlier = false)
    (rejected : analysis.catalog.rejects on method) (rest : List MethodDefinition) :
    (analysis.extractMethods options on (before ++ method :: rest)).1 = .error method.failure ∧
      (analysis.extractMethods options on (before ++ method :: rest)).2.catalog =
        ((analysis.extractMethods options on before).2.typesFor method.mentionedTypes).2.catalog := by
  induction before generalizing analysis with
  | nil =>
      obtain ⟨failed, after⟩ : (analysis.extractMethod options on method).1 = .error method.failure ∧ _ :=
        extractMethod_of_rejected rejected
      rw [List.nil_append, extractMethods_cons_of_error failed, after]
      exact ⟨rfl, rfl⟩
  | cons earlier before ih =>
      obtain ⟨first, ok⟩ : ∃ first, (analysis.extractMethod options on earlier).1 = .ok first :=
        extractMethod_of_accepted formed (accepted earlier (by simp))
      have grows : Grows options.callPolicy analysis.catalog
          (analysis.extractMethod options on earlier).2.catalog :=
        extractMethod_grows formed.sound on earlier
      rw [← rejects_grows grows formed defined] at accepted rejected
      obtain ⟨failed, after⟩ := ih (grows.wellFormed formed) (grows.defined defined)
        (fun other there => accepted other (List.mem_cons_of_mem _ there)) rejected
      rw [List.cons_append, extractMethods_cons_of_ok ok, extractMethods_cons_of_ok ok, failed]
      exact ⟨rfl, after⟩

theorem extractMethods_error_iff {methods : List MethodDefinition} {failure : ExtractionFailure} :
    (analysis.extractMethods options on methods).1 = .error failure ↔
      (methods.find? (analysis.catalog.rejects on)).map (·.failure) = some failure := by
  cases found : methods.find? (analysis.catalog.rejects on) with
  | none =>
      obtain ⟨statistics, ok⟩ : ∃ statistics, (analysis.extractMethods options on methods).1 =
          .ok statistics :=
        extractMethods_of_accepted formed defined (by simpa using found)
      simp [ok]
  | some method =>
      obtain ⟨rejected, before, rest, rfl, accepted⟩ := List.find?_eq_some_iff_append.mp found
      have failed : (analysis.extractMethods options on (before ++ method :: rest)).1 =
          .error method.failure :=
        (extractMethods_of_rejected formed defined (by simpa using accepted) rejected rest).1
      simp [failed]

end Methods

/-! ## All types -/

theorem extractTypes_error_iff {start : Catalog} (formed : start.WellFormed)
    (grown : Grows options.callPolicy start analysis.catalog) {loaded : List LoadedType}
    (defined : ∀ one ∈ loaded, start.Defined one.1) {error : BuildError} :
    (analysis.extractTypes options loaded).1 = .error error ↔
      (loaded.findSome? fun one => (one.2.methods.find? (start.rejects one.1)).map fun method =>
        BuildError.mk one.2.fullName method.failure) = some error := by
  induction loaded generalizing analysis with
  | nil => simp [extractTypes]
  | cons one rest ih =>
      have definedOne := defined one (by simp)
      have failsIff := @extractMethods_error_iff analysis options one.1 (grown.wellFormed formed)
        (grown.defined definedOne) one.2.methods
      rw [rejects_grows grown formed definedOne] at failsIff
      rw [List.findSome?_cons]
      cases found : one.2.methods.find? (start.rejects one.1) with
      | some method =>
          rw [extractTypes_cons_of_error (failsIff.mpr (by rw [found]; rfl))]
          simp
      | none =>
          cases answer : (analysis.extractMethods options one.1 one.2.methods).1 with
          | error cause =>
              have rejected := failsIff.mp answer
              rw [found] at rejected
              cases rejected
          | ok first =>
              have step : Grows options.callPolicy analysis.catalog
                  (analysis.extractType options one.1 one.2).2.catalog :=
                extractType_grows (grown.sound formed.sound) one.1 one.2
              have others := ih (grown.trans step)
                fun other there => defined other (List.mem_cons_of_mem _ there)
              rw [extractTypes_cons_of_ok answer]
              dsimp only [Option.map_none]
              rw [← others]
              cases ((analysis.extractType options one.1 one.2).2.extractTypes options rest).1 <;>
                simp [Except.map]

theorem build_error_iff {metadata : Metadata} {error : BuildError} :
    (Architecture.build options metadata).1 = .error error ↔ metadata.failure? = some error := by
  have formed := allocated_wellFormed metadata
  have named := allocated_names metadata
  have fails : metadata.failure? = (allocate {} metadata).1.findSome? fun one =>
      (one.2.methods.find? ((allocate {} metadata).2.catalog.rejects one.1)).map fun method =>
        BuildError.mk one.2.fullName method.failure := by
    rw [Metadata.failure?, ← allocated_loaded, List.findSome?_map, ← List.head?_filterMap,
      ← List.head?_filterMap]
    congr 1
    refine List.filterMap_congr fun one there => ?_
    have same : (allocate {} metadata).2.catalog.rejects one.1 =
        fun method => metadata.declaresMethod one.2.fullName method.fullName && method.conflicts := by
      funext method
      rw [Catalog.rejects, allocated_methodNamed? (named one there)]
    rw [same]
    rfl
  rw [fails, ← extractTypes_error_iff formed .refl fun one there => (named one there).2, build_eq]
  cases ((allocate {} metadata).2.extractTypes options (allocate {} metadata).1).1 <;>
    simp [Except.map]

theorem build_isOk_iff (options : Options) (metadata : Metadata) :
    (Architecture.build options metadata).1.isOk ↔ metadata.failure? = none := by
  cases built : (Architecture.build options metadata).1 with
  | ok architecture =>
      simp only [Except.isOk, Except.toBool, true_iff]
      cases fails : metadata.failure? with
      | none => rfl
      | some error =>
          rw [build_error_iff.mpr fails] at built
          cases built
  | error error =>
      simp [Except.isOk, Except.toBool, build_error_iff.mp built]

end Analysis

open Catalog Analysis

/-- Extraction of a type fails exactly if a method of the type with a body is flagged both as
constructor and as accessor, and for the first such method. What was extracted before it stays, and
the method itself adds nothing but stubs of the types it mentions. -/
theorem extraction_fails_exactly :
    (∀ (analysis : Analysis) (options : Options) (on : TypeId) (definition : TypeDefinition),
      analysis.catalog.WellFormed → analysis.catalog.Defined on →
      let extracted := analysis.extractType options on definition
      (∀ failure, extracted.1 = .error failure ↔
        (definition.methods.find? (analysis.catalog.rejects on)).map
          (fun method => .noConvention .constructor method.fullName) = some failure) ∧
      ∀ before method rest, definition.methods = before ++ method :: rest →
        (∀ earlier ∈ before, analysis.catalog.rejects on earlier = false) →
        analysis.catalog.rejects on method →
        let prior := analysis.extractMethods options on before
        prior.1.isOk ∧
        extracted.2.catalog = (prior.2.typesFor method.mentionedTypes).2.catalog ∧
        extracted.2.catalog.members = prior.2.catalog.members ∧
        extracted.2.catalog.memberIndex = prior.2.catalog.memberIndex ∧
        ∀ id entry, prior.2.catalog.type? id = some entry →
          extracted.2.catalog.type? id = some entry) ∧
    ∀ (options : Options) (metadata : Metadata),
      (∀ error, (Architecture.build options metadata).1 = .error error ↔
        metadata.failure? = some error) ∧
      ((∃ error, (Architecture.build options metadata).1 = .error error) ↔
        ∃ definition ∈ firstOf (·.fullName) metadata.definitions, ∃ method ∈ definition.methods,
          metadata.declaresMethod definition.fullName method.fullName ∧ method.conflicts) := by
  refine ⟨fun analysis options on definition formed defined => ⟨fun failure => ?_, ?_⟩,
    fun options metadata => ⟨fun error => build_error_iff, ?_⟩⟩
  · rw [(analysis.extractType_eq options on definition).1]
    exact extractMethods_error_iff formed defined
  · intro before method rest split accepted rejected prior
    obtain ⟨statistics, ok⟩ : ∃ statistics, prior.1 = .ok statistics :=
      extractMethods_of_accepted formed defined accepted
    have after := (@extractMethods_of_rejected analysis options on formed defined before method
      accepted rejected rest).2
    have same : SameEntries prior.2.catalog (prior.2.typesFor method.mentionedTypes).2.catalog :=
      typesFor_sameEntries method.mentionedTypes
    rw [(analysis.extractType_eq options on definition).2, afterMethods, split, after]
    exact ⟨by rw [ok]; rfl, rfl, same.members, same.memberIndex, fun id entry => typesFor_type?⟩
  · simp only [build_error_iff, ← Option.isSome_iff_exists, Metadata.failure?,
      List.findSome?_isSome_iff, Option.isSome_map, List.find?_isSome, Bool.and_eq_true]

def conflictingMethod : MethodDefinition :=
  { MethodDefinition.ofSignature { fullName := "Shop.Order" } "get_Discount"
      { fullName := "Shop.Money" } [] with
    isConstructor := true
    isGetter := true
    body := some { localVariableTypes := [{ fullName := "Shop.Coupon" }] } }

def conflictingType : TypeDefinition :=
  { orderType with methods := orderType.methods ++ [conflictingMethod] }

def conflictingMetadata : Metadata :=
  { assemblies := [{ name := "shop", types := [conflictingType] }] }

theorem extraction_fails_exactly_order :
    let analysis := (allocate {} conflictingMetadata).2
    let extracted := analysis.extractType {} ⟨0⟩ conflictingType
    analysis.catalog.WellFormed ∧ analysis.catalog.Defined ⟨0⟩ ∧
      extracted.1 = .error (.noConvention .constructor "Shop.Order::get_Discount()") ∧
      extracted.2.catalog.members =
        (analysis.extractMethods {} ⟨0⟩ orderType.methods).2.catalog.members ∧
      (extracted.2.catalog.typeNamed? "Shop.Coupon").isSome ∧
      (Architecture.build {} conflictingMetadata).1 = .error
        ⟨"Shop.Order", .noConvention .constructor "Shop.Order::get_Discount()"⟩ := by
  intro analysis extracted
  have formed : analysis.catalog.WellFormed := allocated_wellFormed conflictingMetadata
  have notStub : (analysis.catalog.type? ⟨0⟩).any (!·.isStub) = true := by decide +kernel
  have accepted : ∀ earlier ∈ orderType.methods,
      analysis.catalog.rejects ⟨0⟩ earlier = false := by decide +kernel
  have rejected : analysis.catalog.rejects ⟨0⟩ conflictingMethod := by decide +kernel
  have first : conflictingType.methods.find? (analysis.catalog.rejects ⟨0⟩) =
      some conflictingMethod := by
    refine List.find?_eq_some_iff_append.mpr ⟨rejected, orderType.methods, [], rfl, ?_⟩
    simpa using accepted
  have mentioned : (extracted.2.catalog.typeNamed? "Shop.Coupon").isSome := by decide +kernel
  have failing : conflictingMetadata.failure? = some
      ⟨"Shop.Order", .noConvention .constructor "Shop.Order::get_Discount()"⟩ := by decide +kernel
  clear_value analysis
  obtain ⟨entry, found, notStub⟩ := (Option.any_eq_true ..).mp notStub
  have defined : analysis.catalog.Defined ⟨0⟩ := ⟨entry, found, by simpa using notStub⟩
  obtain ⟨fails, leaves⟩ :=
    extraction_fails_exactly.1 analysis {} ⟨0⟩ conflictingType formed defined
  obtain ⟨_, _, members, _⟩ :=
    leaves orderType.methods conflictingMethod [] rfl accepted rejected
  exact ⟨formed, defined, (fails _).mpr (by rw [first]; rfl), members, mentioned,
    ((extraction_fails_exactly.2 {} conflictingMetadata).1 _).mpr failing⟩

end MemberGraph
