import MemberGraph.Proofs.Holdings

/-!
The counts of an analysis can be told from its outcome: from what the catalog holds, and from the
method definitions that have an entry.
-/

set_option autoImplicit false

namespace MemberGraph

/-- The method definitions that an analysis scans: those in the first definition of a type that are
named like a method of the type. -/
def Metadata.scannedMethods (metadata : Metadata) : List MethodDefinition :=
  (firstOf (·.fullName) metadata.definitions).flatMap fun definition =>
    definition.methods.filter (metadata.declaresMethod definition.fullName ·.fullName)

namespace Analysis

open Catalog

variable {analysis : Analysis} {policy : CallPolicy} {options : Options} {on : TypeId}

/-! ## Operands -/

theorem resolveAll_length (references : List MethodReference) :
    (analysis.resolveAll policy references).1.length = references.length := by
  induction references generalizing analysis with
  | nil => rfl
  | cons reference rest ih => exact congrArg (· + 1) ih

theorem callUses_total (origin : MemberId) (body : MethodBody) :
    let calls := (analysis.callUses policy origin (some body)).1
    calls.dependencies.length + calls.unresolved =
      (body.instructions.filterMap Instruction.method?).length := by
  intro calls
  let targets := (analysis.resolveAll policy (body.instructions.filterMap Instruction.method?)).1
  have found : calls.dependencies.length = targets.countP (·.isSome) := by
    rw [List.countP_eq_length_filter, ← List.reduceOption_length_eq]
    exact List.length_map ..
  have missing : calls.unresolved = targets.countP (fun target => ¬target.isSome) :=
    congrArg (List.countP · targets) (funext fun target => by cases target <;> rfl)
  rw [found, missing, ← List.length_eq_countP_add_countP, resolveAll_length]

private theorem attachCall_resolvable (formed : analysis.catalog.WellFormed)
    {reference : MethodReference}
    {field : FieldReference} (attached : (analysis.attachCall policy on reference field).1) :
    analysis.catalog.resolvable policy reference := by
  rcases attachCall_cases policy on reference field with
    ⟨_, target, searched, _, unchanged, resolved, _⟩ | ⟨_, _, _, _, _, refused, _⟩ | ⟨_, refused, _⟩
  · rw [← unchanged] at formed ⊢
    rw [← resolve_isSome formed, resolved]
    rfl
  · rw [refused] at attached
    cases attached
  · rw [refused] at attached
    cases attached

private theorem attachCalls_le (formed : analysis.catalog.WellFormed)
    (calls : List (MethodReference × FieldReference)) :
    (analysis.attachCalls policy on calls).1 ≤
      calls.countP (analysis.catalog.resolvable policy ·.1) := by
  induction calls generalizing analysis with
  | nil => exact Nat.le_refl 0
  | cons call rest ih =>
      have grows : Grows policy analysis.catalog
          (analysis.attachCall policy on call.1 call.2).2.catalog :=
        attachCall_grows formed.sound on call.1 call.2
      -- The stubs that the first call may add do not change what can be resolved.
      have others := ih (grows.wellFormed formed)
      simp only [Grows.resolvable grows formed] at others
      have first : (analysis.attachCall policy on call.1 call.2).1.toNat ≤
          (analysis.catalog.resolvable policy call.1).toNat := by
        cases attached : (analysis.attachCall policy on call.1 call.2).1 with
        | false => exact Nat.zero_le _
        | true => rw [attachCall_resolvable formed attached]
      have total : (analysis.attachCalls policy on (call :: rest)).1 =
          (analysis.attachCall policy on call.1 call.2).1.toNat +
            ((analysis.attachCall policy on call.1 call.2).2.attachCalls policy on rest).1 := rfl
      rw [total, List.countP_cons]
      cases resolvable : analysis.catalog.resolvable policy call.1 <;>
        simp only [resolvable, Bool.toNat_false, Bool.toNat_true] at first ⊢ <;> grind

private theorem method?_of_storedCall? {typeName : String} {first second : Instruction}
    {call : MethodReference × FieldReference}
    (stored : storedCall? typeName first second = some call) :
    first.method? = some call.1 := by
  obtain ⟨reference, found, rest⟩ := Option.bind_eq_some_iff.mp stored
  obtain ⟨field, _, chosen⟩ := Option.bind_eq_some_iff.mp rest
  split at chosen
  · cases chosen
    exact found
  · cases chosen

/-- The methods whose results are stored stand among the operands, in the same order. -/
theorem storedCalls_sublist (typeName : String) (body : MethodBody) :
    ((storedCalls typeName body).map (·.1)).Sublist
      (body.instructions.filterMap Instruction.method?) := by
  unfold storedCalls adjacentPairs
  -- Only the first of each pair counts, so the list of the second may be any.
  generalize body.instructions.tail = others
  induction body.instructions generalizing others with
  | nil => simp
  | cons first rest ih =>
      cases others with
      | nil => simp
      | cons second others =>
          cases stored : storedCall? typeName first second with
          | none =>
              simp only [List.zip_cons_cons, List.filterMap_cons, stored]
              cases first.method? with
              | none => exact ih others
              | some reference => exact (ih others).cons reference
          | some call =>
              simp only [List.zip_cons_cons, List.filterMap_cons, stored,
                method?_of_storedCall? stored]
              exact (ih others).cons_cons call.1

private theorem attachStoredCalls_le (formed : analysis.catalog.WellFormed) (id : MemberId)
    (body : MethodBody) :
    let attached := analysis.attachStoredCalls policy on body
    attached.1 ≤ (attached.2.callUses policy id (some body)).1.dependencies.length := by
  intro attached
  have grows : Grows policy analysis.catalog attached.2.catalog :=
    attachStoredCalls_grows formed.sound on body
  have length : (attached.2.callUses policy id (some body)).1.dependencies.length =
      (body.instructions.filterMap Instruction.method?).countP
        (analysis.catalog.resolvable policy) := by
    rw [← funext (Grows.resolvable grows formed)]
    exact callsTo_length (grows.wellFormed formed) id _
  rw [length]
  unfold attached attachStoredCalls
  split
  · next entry found =>
      calc (analysis.attachCalls policy on (storedCalls entry.fullName body)).1
        _ ≤ (storedCalls entry.fullName body).countP (analysis.catalog.resolvable policy ·.1) :=
          attachCalls_le formed _
        _ = ((storedCalls entry.fullName body).map (·.1)).countP
            (analysis.catalog.resolvable policy) := by rw [List.countP_map]; rfl
        _ ≤ _ := (storedCalls_sublist entry.fullName body).countP_le
  · exact Nat.zero_le _

/-! ## Balances -/

structure Balanced (scanned : List MethodDefinition) (statistics : Statistics) : Prop where
  calls : statistics.callDependencies + statistics.unresolvedCalls =
    (scanned.flatMap ownOperands).length
  accessors : statistics.linkedAccessors + statistics.unlinkedAccessors =
    scanned.countP fun method => method.isAccessor ∧ method.body.isSome
  storage : statistics.backingFieldsLinked ≤ statistics.linkedAccessors
  attached : statistics.backingFieldCalls ≤ statistics.callDependencies

theorem Balanced.none : Balanced [] {} := by
  constructor <;> rfl

theorem Balanced.append {first second : List MethodDefinition} {statistics others : Statistics}
    (balanced : Balanced first statistics) (balancedToo : Balanced second others) :
    Balanced (first ++ second) (statistics.merge others) := by
  obtain ⟨calls, accessors, storage, attached⟩ := balanced
  obtain ⟨otherCalls, otherAccessors, otherStorage, otherAttached⟩ := balancedToo
  constructor <;>
    simp only [Statistics.merge, List.flatMap_append, List.length_append, List.countP_append] <;>
    omega

private theorem methodCalls_balanced (formed : analysis.catalog.WellFormed) {id : MemberId}
    {method : MethodDefinition} {calls : List Dependency} {statistics : Statistics}
    (succeeded : (analysis.methodCalls options on id method).1 = .ok (calls, statistics)) :
    Balanced [method] statistics := by
  rcases methodCalls_cases options on id method with ⟨hasBody, none⟩ |
    ⟨body, hasBody, accessor, _, answer⟩ | ⟨body, hasBody, plain, _, answer⟩
  · rw [none] at succeeded
    cases succeeded
    constructor <;> simp [ownOperands_eq, hasBody]
  · rw [answer] at succeeded
    cases tied : (analysis.tieAccessor options.callPolicy on id method).1 with
    | error error => rw [tied] at succeeded; cases succeeded
    | ok outcome =>
        rw [tied] at succeeded
        cases succeeded
        cases outcome with
        | unlinked => constructor <;> simp [ownOperands_eq, accessor, accessorStatistics, hasBody]
        | linked property backing count =>
            constructor <;>
              simp [ownOperands_eq, accessor, accessorStatistics, hasBody, Bool.toNat_le]
  · rw [answer] at succeeded
    cases succeeded
    constructor
    · simpa [ownOperands_eq, plain, hasBody] using callUses_total id body
    · simp [plain]
    · exact Nat.le_refl 0
    · exact attachStoredCalls_le formed id body

private theorem extractKnownMethod_balanced (formed : analysis.catalog.WellFormed) {id : MemberId}
    {method : MethodDefinition} {statistics : Statistics}
    (succeeded : (analysis.extractKnownMethod options on id method).1 = .ok statistics) :
    Balanced [method] statistics := by
  have grown : Grows options.callPolicy analysis.catalog
      ((analysis.signatureUses id method).2.bodyUses id method.body).2.catalog :=
    .trans (typeUses_grows ..) (typeUses_grows ..)
  rcases extractKnownMethod_cases options on id method with
    ⟨calls, others, called, ok, _⟩ | ⟨error, _, failed⟩
  · rw [ok] at succeeded
    cases succeeded
    obtain ⟨calls, accessors, storage, attached⟩ :=
      methodCalls_balanced (grown.wellFormed formed) called
    exact ⟨calls, accessors, storage, attached⟩
  · rw [failed] at succeeded
    cases succeeded

/-! ## Whole analyses -/

def scannedIn (start : Catalog) (visited : List (TypeId × MethodDefinition)) :
    List MethodDefinition :=
  (visited.filter fun visit => (start.methodNamed? visit.1 visit.2.fullName).isSome).map (·.2)

private theorem extractMethod_balanced {start : Catalog} (formed : start.WellFormed)
    (grown : Grows options.callPolicy start analysis.catalog) (ready : Ready analysis.catalog on)
    {method : MethodDefinition} {statistics : Statistics}
    (succeeded : (analysis.extractMethod options on method).1 = .ok statistics) :
    Balanced (scannedIn start [(on, method)]) statistics := by
  have defined := grown.defined_before ready.defined
  unfold extractMethod at succeeded
  rw [grown.methodNamed? formed (.inl defined)] at succeeded
  cases entered : start.methodNamed? on method.fullName with
  | none =>
      rw [entered] at succeeded
      cases succeeded
      simpa [scannedIn, entered] using Balanced.none
  | some id =>
      rw [entered] at succeeded
      simpa [scannedIn, entered] using extractKnownMethod_balanced ready.formed succeeded

private theorem balanced_extraction {metadata : Metadata} :
    KeptByExtraction options fun visited statistics catalog =>
      Grows options.callPolicy (allocate {} metadata).2.catalog catalog ∧
        Balanced (scannedIn (allocate {} metadata).2.catalog visited) statistics := by
  intro analysis on method done total statistics ready ok before
  refine ⟨before.1.trans (extractMethod_grows ready.formed.sound on method), ?_⟩
  have all := before.2.append
    (extractMethod_balanced (allocated_wellFormed metadata) before.1 ready ok)
  unfold scannedIn at all ⊢
  rwa [List.filter_append, List.map_append]

theorem allocated_scanned (metadata : Metadata) :
    scannedIn (allocate {} metadata).2.catalog (visits (allocate {} metadata).1) =
      metadata.scannedMethods := by
  unfold scannedIn visits Metadata.scannedMethods
  rw [← allocated_loaded, List.flatMap_map, List.filter_flatMap, List.map_flatMap]
  refine List.flatMap_congr fun loaded there => ?_
  have names := allocated_names metadata loaded there
  rw [List.filter_map, List.map_map]
  simp only [Function.comp_def, List.map_id', allocated_methodNamed? names]

theorem built_balanced {metadata : Metadata} {architecture : Architecture}
    (built : (Architecture.build options metadata).1 = .ok architecture) :
    Balanced metadata.scannedMethods architecture.statistics := by
  obtain ⟨succeeded, _⟩ := build_mirrors built
  rw [← allocated_scanned]
  exact (balanced_extraction.extracted succeeded ⟨.refl, .none⟩).2

end Analysis

/-- The counts of a successful analysis can be told from its outcome. -/
theorem statistics_recoverable {options : Options} {metadata : Metadata}
    {architecture : Architecture}
    (built : (Architecture.build options metadata).1 = .ok architecture) :
    let statistics := architecture.statistics
    let held := architecture.catalog.tally
    let scanned := metadata.scannedMethods
    statistics.signatureDependencies = held (·.kind = .typeUse .signature) ∧
    statistics.bodyTypeDependencies = held (·.kind = .typeUse .body) ∧
    statistics.callDependencies =
      held (fun one => one.holder = .method ∧ one.kind = .call ∧ one.own) ∧
    statistics.backingFieldsLinked =
      held (fun one => one.holder = .property ∧ one.kind = .typeUse .field) ∧
    statistics.backingFieldsLinked =
      held (fun one => one.holder = .method ∧ one.kind = .typeUse .field) ∧
    statistics.backingFieldCalls +
        held (fun one => one.holder = .method ∧ one.kind = .call ∧ ¬one.own) =
      held (fun one => one.holder = .property ∧ one.kind = .call) ∧
    statistics.callDependencies + statistics.unresolvedCalls =
      (scanned.flatMap Analysis.ownOperands).length ∧
    statistics.linkedAccessors + statistics.unlinkedAccessors =
      scanned.countP (fun method => (method.isGetter ∨ method.isSetter) ∧ method.body.isSome) ∧
    architecture.catalog.storedProperties ≤ statistics.backingFieldsLinked ∧
    statistics.backingFieldsLinked ≤ statistics.linkedAccessors ∧
    statistics.backingFieldCalls ≤ statistics.callDependencies := by
  intro statistics held scanned
  obtain ⟨⟨accessorCalls, holdings⟩, stored⟩ := Analysis.built_books built
  obtain ⟨calls, accessors, storage, attached⟩ := Analysis.built_balanced built
  have flagged : statistics.linkedAccessors + statistics.unlinkedAccessors = scanned.countP
      fun method => (method.isGetter ∨ method.isSetter) ∧ method.body.isSome := by
    refine accessors.trans (List.countP_congr fun method _ => ?_)
    simp [MethodDefinition.isAccessor]
  refine ⟨?_, ?_, ?_, ?_, ?_, ?_, calls, flagged, stored, storage, attached⟩
  all_goals simp [held, holdings, Statistics.holdings, countP_replicate_eq, statistics]

/-- A type whose property is stored in a field. Its getter calls `Fetch`, as does a method that
stores the result in the field; that method also calls one that is not defined. Another getter has
no property. -/
def accountMetadata : Metadata :=
  let account : TypeReference := { fullName := "Shop.Account" }
  let money : TypeReference := { fullName := "Shop.Money" }
  let void : TypeReference := { fullName := "Sys.Void" }
  let balance : FieldReference := .ofName account "_balance" money
  let fetch := MethodDefinition.ofSignature account "Fetch" money []
  let call (method : MethodReference) : Instruction :=
    { opcode := .call, operand := some (.method method) }
  let getter (name : String) (instructions : List Instruction) : MethodDefinition :=
    { MethodDefinition.ofSignature account name money [] with
      isGetter := true
      body := some { instructions } }
  let getBalance :=
    getter "get_Balance"
      [{ opcode := .ldfld, operand := some (.field balance) }, call fetch.reference]
  let refresh : MethodDefinition :=
    { MethodDefinition.ofSignature account "Refresh" void [] with
      body := some
        { localVariableTypes := [money]
          instructions :=
            [call fetch.reference, { opcode := .stfld, operand := some (.field balance) },
              call (.ofSignature account "Flush" void [])] } }
  { assemblies :=
      [{ name := "shop"
         types :=
          [{ fullName := account.fullName
             fields := [{ name := "_balance", fullName := balance.fullName, fieldType := money }]
             methods := [getBalance, fetch, refresh, getter "get_Rate" []]
             properties :=
              [{ name := "Balance", fullName := "Shop.Account::Balance", propertyType := money
                 getter := some getBalance.fullName }] }] }] }

theorem statistics_recoverable_account :
    ∃ architecture, (Architecture.build {} accountMetadata).1 = .ok architecture ∧
      let held := architecture.catalog.tally
      held (·.kind = .typeUse .signature) = 4 ∧
      held (·.kind = .typeUse .body) = 1 ∧
      held (fun one => one.holder = .method ∧ one.kind = .call ∧ one.own) = 1 ∧
      held (fun one => one.holder = .property ∧ one.kind = .typeUse .field) = 1 ∧
      held (fun one => one.holder = .method ∧ one.kind = .typeUse .field) = 1 ∧
      held (fun one => one.holder = .property ∧ one.kind = .call) = 2 ∧
      (accountMetadata.scannedMethods.flatMap Analysis.ownOperands).length = 2 ∧
      accountMetadata.scannedMethods.countP
        (fun method => (method.isGetter ∨ method.isSetter) ∧ method.body.isSome) = 2 ∧
      architecture.catalog.storedProperties ≤ 1 := by
  obtain ⟨architecture, built, evaluated⟩ := @Analysis.build_passes {} accountMetadata
    (fun architecture =>
      architecture.catalog.tally
          (fun one => one.holder = .method ∧ one.kind = .call ∧ ¬one.own) = 1 &&
        architecture.statistics =
          { methods := 4
            signatureDependencies := 4
            bodyTypeDependencies := 1
            callDependencies := 1
            unresolvedCalls := 1
            linkedAccessors := 1
            unlinkedAccessors := 1
            backingFieldsLinked := 1
            backingFieldCalls := 1 })
    (by decide +kernel)
  simp only [Bool.and_eq_true, decide_eq_true_eq] at evaluated
  obtain ⟨inherited, counts⟩ := evaluated
  have recovered := statistics_recoverable built
  simp only [counts, inherited] at recovered
  obtain ⟨signature, body, calls, byProperties, byMethods, inProperties, operands, accessors,
    stored, _⟩ := recovered
  exact ⟨architecture, built, signature.symm, body.symm, calls.symm, byProperties.symm,
    byMethods.symm, inProperties.symm, operands.symm, accessors.symm, stored⟩

end MemberGraph
