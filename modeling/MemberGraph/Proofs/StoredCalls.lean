import MemberGraph.Proofs.Accounting
import MemberGraph.Proofs.Settled

/-!
Calls whose result is stored in the field of a property. The property gets a call for each of them,
and the method that stores the result gets the same call, in the same order.
-/

set_option autoImplicit false

namespace MemberGraph

namespace Analysis

open Catalog

/-- What two adjacent instructions surface on a property: the first has a method operand that leads to
`target`, and the second stores into a field of the type named `typeName`, by whose name the field
belongs to `property`. -/
def Surfaces (before after : Analysis) (policy : CallPolicy) (on : TypeId) (typeName : String)
    (pair : Instruction × Instruction) (property target : MemberId) : Prop :=
  ∃ reference field,
    pair.1.operand = some (.method reference) ∧
    (pair.2.opcode = .stfld ∨ pair.2.opcode = .stsfld) ∧ pair.2.operand = some (.field field) ∧
    field.declaringType.fullName = typeName ∧ (Convention.field.property? field.name).isSome ∧
    (before.propertyOf on .field field.name field.fullName).1 = some property ∧
    (after.resolve policy reference).1 = some target

def surfacedCall? (before after : Analysis) (policy : CallPolicy) (on : TypeId)
    (call : MethodReference × FieldReference) : Option (MemberId × MemberId) := do
  let property ← (before.propertyOf on .field call.2.name call.2.fullName).1
  let target ← (after.resolve policy call.1).1
  some (property, target)

def surfaced? (before after : Analysis) (policy : CallPolicy) (on : TypeId) (typeName : String)
    (pair : Instruction × Instruction) : Option (MemberId × MemberId) :=
  (storedCall? typeName pair.1 pair.2).bind (surfacedCall? before after policy on)

def callsOf (holder : MemberId) (edges : List (MemberId × MemberId)) : List Dependency :=
  (edges.filter (·.1 = holder)).map fun edge => .call edge.1 edge.2

section Surfaced

variable {analysis before after later : Analysis} {policy : CallPolicy} {on : TypeId}

/-! ## Pairs of instructions -/

theorem storedCall?_eq_some_iff {typeName : String} {first second : Instruction}
    {reference : MethodReference} {field : FieldReference} :
    storedCall? typeName first second = some (reference, field) ↔
      first.method? = some reference ∧ second.storedField? = some field ∧
        field.declaringType.fullName = typeName ∧
          (Convention.field.property? field.name).isSome := by
  unfold storedCall?
  simp only [Option.bind_eq_bind, Option.bind_eq_some_iff, Option.ite_none_right_eq_some,
    Option.some.injEq, Prod.mk.injEq]
  constructor
  · rintro ⟨_, called, _, stored, fits, rfl, rfl⟩
    exact ⟨called, stored, fits⟩
  · rintro ⟨called, stored, fits⟩
    exact ⟨reference, called, field, stored, fits, rfl, rfl⟩

theorem surfacedCall?_eq_some_iff {call : MethodReference × FieldReference}
    {property target : MemberId} :
    surfacedCall? before after policy on call = some (property, target) ↔
      (before.propertyOf on .field call.2.name call.2.fullName).1 = some property ∧
        (after.resolve policy call.1).1 = some target := by
  simp [surfacedCall?, Option.bind_eq_some_iff]

theorem surfaced?_eq_some_iff {typeName : String} {pair : Instruction × Instruction}
    {property target : MemberId} :
    surfaced? before after policy on typeName pair = some (property, target) ↔
      Surfaces before after policy on typeName pair property target := by
  unfold surfaced? Surfaces
  simp only [Option.bind_eq_some_iff, Prod.exists, storedCall?_eq_some_iff,
    surfacedCall?_eq_some_iff, Instruction.method?_eq_some_iff,
    Instruction.storedField?_eq_some_iff, and_assoc]

/-! ## One stored call -/

theorem callsOf_append (holder : MemberId) (first second : List (MemberId × MemberId)) :
    callsOf holder (first ++ second) = callsOf holder first ++ callsOf holder second := by
  simp [callsOf]

private theorem attachCall_surfaced (formed : analysis.catalog.WellFormed)
    (call : MethodReference × FieldReference)
    (grows : Grows policy (analysis.attachCall policy on call.1 call.2).2.catalog later.catalog) :
    let edge := surfacedCall? analysis later policy on call
    (analysis.attachCall policy on call.1 call.2).1 = edge.isSome ∧
      ∀ holder, recordedDependencies (analysis.attachCall policy on call.1 call.2).2.catalog holder =
        recordedDependencies analysis.catalog holder ++ callsOf holder edge.toList := by
  have attaching : Grows policy analysis.catalog
      (analysis.attachCall policy on call.1 call.2).2.catalog :=
    attachCall_grows formed.sound on call.1 call.2
  have all := attaching.trans grows
  have answer := (@propertyOf_eq analysis on .field call.2.name call.2.fullName).1
  rcases attachCall_cases policy on call.1 call.2 with
    ⟨property, target, searched, found, same, resolved, attached, final⟩ |
    ⟨property, searched, found, same, unresolved, attached, final⟩ | ⟨missing, attached, final⟩
  · rw [final] at grows
    have again := (resolve_again (same ▸ formed) (same ▸ all)
      ((extends_addDependencies _ _).trans grows.extends)).1
    have edge : surfacedCall? analysis later policy on call = some (property, target) :=
      surfacedCall?_eq_some_iff.mpr ⟨answer.trans found, again.trans resolved⟩
    have known : (searched.resolve policy call.1).2.catalog.hasMember property := by
      obtain ⟨member, there, _⟩ := implemented?_declared formed.sound found
      rw [← same] at there
      exact (resolve_grows (same ▸ formed.sound) call.1).extends.hasMember
        (hasMember_of_member? there)
    refine ⟨by rw [attached, edge]; rfl, fun holder => ?_⟩
    rw [final, recordedDependencies_addDependencies known, resolve_recorded, same, edge]
    by_cases self : property = holder
    · simp [callsOf, self]
    · simp [callsOf, self]
  · rw [final] at grows
    have again := (resolve_again (same ▸ formed) (same ▸ all) grows.extends).1
    have edge : surfacedCall? analysis later policy on call = none := by
      simp [surfacedCall?, again, unresolved]
    refine ⟨by rw [attached, edge]; rfl, fun holder => ?_⟩
    rw [final, resolve_recorded, same, edge]
    simp [callsOf]
  · have edge : surfacedCall? analysis later policy on call = none := by
      simp [surfacedCall?, answer, missing]
    refine ⟨by rw [attached, edge]; rfl, fun holder => ?_⟩
    rw [final, edge]
    simp [callsOf]

/-! ## All stored calls of a body -/

theorem surfacedCall?_grows (grows : Grows policy before.catalog later.catalog)
    (sound : before.catalog.Sound) (defined : before.catalog.Defined on) :
    surfacedCall? later after policy on = surfacedCall? before after policy on := by
  funext call
  rw [surfacedCall?, surfacedCall?, propertyOf_eq _ _ _ _ |>.1, propertyOf_eq _ _ _ _ |>.1,
    grows.implemented? sound defined]

theorem attachCalls_surfaced (formed : analysis.catalog.WellFormed)
    (defined : analysis.catalog.Defined on) (calls : List (MethodReference × FieldReference))
    (grows : Grows policy (analysis.attachCalls policy on calls).2.catalog later.catalog) :
    let edges := calls.filterMap (surfacedCall? analysis later policy on)
    (analysis.attachCalls policy on calls).1 = edges.length ∧
      ∀ holder, recordedDependencies (analysis.attachCalls policy on calls).2.catalog holder =
        recordedDependencies analysis.catalog holder ++ callsOf holder edges := by
  induction calls generalizing analysis with
  | nil => exact ⟨rfl, fun holder => by simp [attachCalls, callsOf]⟩
  | cons call rest ih =>
      have first : Grows policy analysis.catalog
          (analysis.attachCall policy on call.1 call.2).2.catalog :=
        attachCall_grows formed.sound on call.1 call.2
      have others : Grows policy (analysis.attachCall policy on call.1 call.2).2.catalog
          later.catalog := (attachCalls_grows (first.sound formed.sound) on rest).trans grows
      obtain ⟨counted, recorded⟩ := attachCall_surfaced formed call others
      obtain ⟨countedRest, recordedRest⟩ :=
        ih (first.wellFormed formed) (first.defined defined) grows
      rw [surfacedCall?_grows first formed.sound defined] at countedRest recordedRest
      have split : (call :: rest).filterMap (surfacedCall? analysis later policy on) =
          (surfacedCall? analysis later policy on call).toList ++
            rest.filterMap (surfacedCall? analysis later policy on) := by
        cases edge : surfacedCall? analysis later policy on call <;> simp [edge]
      have total : (analysis.attachCalls policy on (call :: rest)).1 =
          (analysis.attachCall policy on call.1 call.2).1.toNat +
            ((analysis.attachCall policy on call.1 call.2).2.attachCalls policy on rest).1 := rfl
      refine ⟨?_, fun holder => ?_⟩
      · rw [total, counted, countedRest, split, List.length_append]
        cases surfacedCall? analysis later policy on call <;> rfl
      · rw [split, callsOf_append, ← List.append_assoc, ← recorded holder, ← recordedRest holder]
        rfl

private theorem storedCalls_surfaced (typeName : String) (body : MethodBody) :
    (storedCalls typeName body).filterMap (surfacedCall? before after policy on) =
      (adjacentPairs body.instructions).filterMap (surfaced? before after policy on typeName) := by
  rw [storedCalls, List.filterMap_filterMap]
  rfl

private theorem surfaced_property (sound : before.catalog.Sound) {typeName : String}
    {pair : Instruction × Instruction} {edge : MemberId × MemberId}
    (surfaced : surfaced? before after policy on typeName pair = some edge) :
    ∃ member, before.catalog.member? edge.1 = some member ∧ member.isProperty := by
  obtain ⟨_, _, _, _, _, _, _, found, _⟩ := surfaced?_eq_some_iff.mp surfaced
  rw [propertyOf_eq _ _ _ _ |>.1] at found
  obtain ⟨member, there, isProperty, _⟩ := implemented?_declared sound found
  exact ⟨member, there, isProperty⟩

/-- The methods that are surfaced stand among those that the operands lead to, in the same order. -/
theorem surfaced_sublist (typeName : String) (body : MethodBody) :
    (((adjacentPairs body.instructions).filterMap
        (surfaced? before after policy on typeName)).map (·.2)).Sublist
      ((body.instructions.filterMap Instruction.method?).filterMap
        fun reference => (after.resolve policy reference).1) := by
  rw [← storedCalls_surfaced]
  refine .trans ?_ ((storedCalls_sublist typeName body).filterMap _)
  induction storedCalls typeName body with
  | nil => exact .slnil
  | cons call rest ih =>
      cases edge : surfacedCall? before after policy on call with
      | none =>
          rw [List.filterMap_cons_none edge, List.map_cons]
          exact ih.trans (List.Sublist.filterMap _ (List.sublist_cons_self ..))
      | some edge' =>
          obtain ⟨_, resolved⟩ := surfacedCall?_eq_some_iff.mp edge
          rw [List.filterMap_cons_some edge, List.map_cons, List.map_cons, List.filterMap_cons_some
            (f := fun reference => (after.resolve policy reference).1) resolved]
          exact ih.cons_cons _

private theorem attachStoredCalls_surfaced (formed : analysis.catalog.WellFormed)
    {entry : TypeEntry}
    (found : analysis.catalog.type? on = some entry) (analyzed : entry.isStub = false)
    (body : MethodBody)
    (grows : Grows policy (analysis.attachStoredCalls policy on body).2.catalog later.catalog) :
    let edges := (adjacentPairs body.instructions).filterMap
      (surfaced? analysis later policy on entry.fullName)
    (analysis.attachStoredCalls policy on body).1 = edges.length ∧
      ∀ holder, recordedDependencies (analysis.attachStoredCalls policy on body).2.catalog holder =
        recordedDependencies analysis.catalog holder ++ callsOf holder edges := by
  have opened : analysis.attachStoredCalls policy on body =
      analysis.attachCalls policy on (storedCalls entry.fullName body) := by
    simp only [attachStoredCalls, found]
  rw [opened] at grows
  rw [opened, ← storedCalls_surfaced]
  exact attachCalls_surfaced formed ⟨entry, found, analyzed⟩ _ grows

private theorem callsOf_surfaced (sound : before.catalog.Sound) (typeName : String)
    (pairs : List (Instruction × Instruction)) {holder : MemberId}
    (other : ∀ member, before.catalog.member? holder = some member → member.isProperty = false) :
    callsOf holder (pairs.filterMap (surfaced? before after policy on typeName)) = [] := by
  unfold callsOf
  rw [List.map_eq_nil_iff, List.filter_eq_nil_iff]
  intro edge there held
  obtain ⟨pair, _, surfaced⟩ := List.mem_filterMap.mp there
  obtain ⟨member, found, isProperty⟩ := surfaced_property sound surfaced
  rw [decide_eq_true_iff] at held
  rw [other member (held ▸ found)] at isProperty
  cases isProperty

theorem attachStoredCalls_kept (formed : analysis.catalog.WellFormed)
    (defined : analysis.catalog.Defined on) {body : MethodBody} {holder : MemberId} {member : Member}
    (found : (analysis.attachStoredCalls policy on body).2.catalog.member? holder = some member)
    (kind : member.isField ∨ member.isMethod) :
    recordedDependencies (analysis.attachStoredCalls policy on body).2.catalog holder =
      recordedDependencies analysis.catalog holder := by
  obtain ⟨entry, typeFound, analyzed⟩ := defined
  have attaching : Grows policy analysis.catalog
      (analysis.attachStoredCalls policy on body).2.catalog :=
    attachStoredCalls_grows formed.sound on body
  have notProperty : ∀ earlier, analysis.catalog.member? holder = some earlier →
      earlier.isProperty = false := by
    intro earlier before
    obtain ⟨later, there, extended⟩ := attaching.extends.member? before
    rw [found] at there
    cases there
    rw [← extended.isProperty]
    exact kind.elim Member.isProperty_of_isField Member.isProperty_of_isMethod
  rw [(attachStoredCalls_surfaced formed typeFound analyzed body .refl).2 holder,
    callsOf_surfaced formed.sound _ _ notProperty, List.append_nil]

private theorem callUses_again (formed : analysis.catalog.WellFormed) {origin : MemberId}
    {body : MethodBody}
    (grows : Grows policy (analysis.callUses policy origin (some body)).2.catalog later.catalog) :
    (analysis.callUses policy origin (some body)).1.dependencies =
      ((body.instructions.filterMap Instruction.method?).filterMap
        fun reference => (later.resolve policy reference).1).map (.call origin) := by
  have again := resolveAll_again formed grows
  simp only [callUses, callsTo, Option.elim_some] at again ⊢
  rw [again, List.reduceOption, List.filterMap_map]
  rfl

end Surfaced

/-! ## Extraction -/

section Extraction

variable {analysis : Analysis} {options : Options} {on : TypeId} {method : MethodDefinition}
  {id : MemberId} {body : MethodBody}

/-- A method that is no accessor gets what it uses once its stored calls are given to properties. -/
theorem extractMethod_of_ordinary
    (entered : analysis.catalog.methodNamed? on method.fullName = some id)
    (ordinary : method.isAccessor = false) (hasBody : method.body = some body) :
    let signature := analysis.signatureUses id method
    let used := signature.2.bodyUses id method.body
    let called := used.2.methodCalls options on id method
    let attached := used.2.attachStoredCalls options.callPolicy on body
    let calls := attached.2.callUses options.callPolicy id (some body)
    (∃ statistics, called.1 = .ok (calls.1.dependencies, statistics)) ∧ called.2 = calls.2 ∧
      (analysis.extractMethod options on method).2.catalog =
        calls.2.catalog.addDependencies id (signature.1 ++ used.1 ++ calls.1.dependencies) := by
  intro signature used called attached calls
  obtain ⟨after, statistics, answer⟩ : called.2 = calls.2 ∧
      ∃ statistics, called.1 = .ok (calls.1.dependencies, statistics) := by
    rcases @methodCalls_cases used.2 options on id method with
      ⟨noBody, _⟩ | ⟨_, _, accessor, _⟩ | ⟨given, sameBody, _, after, answer⟩
    · rw [hasBody] at noBody
      cases noBody
    · rw [ordinary] at accessor
      cases accessor
    · rw [hasBody] at sameBody
      cases sameBody
      exact ⟨after, _, answer⟩
  refine ⟨⟨statistics, answer⟩, after, ?_⟩
  simp only [extractMethod, entered]
  rcases @extractKnownMethod_cases analysis options on id method with
    ⟨given, _, called', _, final⟩ | ⟨_, failed, _⟩
  · rw [answer] at called'
    cases called'
    rw [final, after]
  · rw [answer] at failed
    cases failed

private theorem extractMethod_stages (formed : analysis.catalog.WellFormed)
    (entered : analysis.catalog.methodNamed? on method.fullName = some id)
    (ordinary : method.isAccessor = false) (hasBody : method.body = some body) :
    let signature := analysis.signatureUses id method
    let used := signature.2.bodyUses id method.body
    let attached := used.2.attachStoredCalls options.callPolicy on body
    let calls := attached.2.callUses options.callPolicy id (some body)
    let final := (analysis.extractMethod options on method).2
    Grows options.callPolicy analysis.catalog used.2.catalog ∧
      Grows options.callPolicy used.2.catalog attached.2.catalog ∧
      Grows options.callPolicy attached.2.catalog calls.2.catalog ∧
      Grows options.callPolicy calls.2.catalog final.catalog ∧
      recordedDependencies used.2.catalog = recordedDependencies analysis.catalog ∧
      ∀ holder, recordedDependencies final.catalog holder =
        recordedDependencies attached.2.catalog holder ++
          if id = holder then signature.1 ++ used.1 ++ calls.1.dependencies else [] := by
  intro signature used attached calls final
  obtain ⟨_, member, there, _⟩ := methodNamed?_eq_some_iff.mp entered
  have known := hasMember_of_member? there
  have scanning : Grows options.callPolicy analysis.catalog used.2.catalog :=
    Relation.ReflTransGen.trans (typeUses_grows ..) (typeUses_grows ..)
  have scanned := scanning.sound formed.sound
  have attaching : Grows options.callPolicy used.2.catalog attached.2.catalog :=
    attachStoredCalls_grows scanned on body
  have calling : Grows options.callPolicy attached.2.catalog calls.2.catalog :=
    callUses_grows (attaching.sound scanned) id (some body)
  obtain ⟨⟨statistics, answer⟩, after, recorded⟩ :=
    @extractMethod_of_ordinary analysis options _ _ _ _ entered ordinary hasBody
  refine ⟨scanning, attaching, calling, ?_, ?_, fun holder => ?_⟩
  · have own := ownDependencies_grows formed.sound known answer
    rwa [after, ← recorded] at own
  · exact (typeUses_recorded ..).trans (typeUses_recorded ..)
  · have knownCalls := (Grows.extends (scanning.trans (attaching.trans calling))).hasMember known
    rw [recorded, recordedDependencies_addDependencies knownCalls]
    exact congrArg (· ++ _) (congrFun (resolveAll_recorded _) holder)

end Extraction

end Analysis

open Catalog Analysis

/-- Each call whose result is stored in the field of a property is recorded twice: on the property,
where nothing else is recorded meanwhile, and on the method that calls. Both are in the order of the
instructions. -/
theorem stored_calls_twinned {analysis : Analysis} {options : Options} {on : TypeId}
    {entry : TypeEntry} {method : MethodDefinition} {id : MemberId} {body : MethodBody}
    (formed : analysis.catalog.WellFormed) (found : analysis.catalog.type? on = some entry)
    (analyzed : entry.isStub = false)
    (entered : analysis.catalog.methodNamed? on method.fullName = some id)
    (ordinary : method.isAccessor = false) (hasBody : method.body = some body) :
    let signature := analysis.signatureUses id method
    let used := signature.2.bodyUses id method.body
    let attached := used.2.attachStoredCalls options.callPolicy on body
    let calls := attached.2.callUses options.callPolicy id (some body)
    let final := (analysis.extractMethod options on method).2
    let surfaced := surfaced? used.2 final options.callPolicy on entry.fullName
    let edges := (adjacentPairs body.instructions).filterMap surfaced
    (∀ pair property target, surfaced pair = some (property, target) ↔
      Surfaces used.2 final options.callPolicy on entry.fullName pair property target) ∧
    attached.1 = edges.length ∧
    (∀ holder, recordedDependencies attached.2.catalog holder =
      recordedDependencies used.2.catalog holder ++ callsOf holder edges) ∧
    (∀ holder member, attached.2.catalog.member? holder = some member →
      member.isField ∨ member.isMethod →
      recordedDependencies attached.2.catalog holder =
        recordedDependencies used.2.catalog holder) ∧
    (edges.map (Dependency.call id ·.2)).Sublist calls.1.dependencies ∧
    recordedDependencies final.catalog id = recordedDependencies analysis.catalog id ++
      (signature.1 ++ used.1 ++ calls.1.dependencies) ∧
    ∀ edge ∈ edges, .call edge.1 edge.2 ∈ recordedDependencies final.catalog edge.1 ∧
      .call id edge.2 ∈ recordedDependencies final.catalog id := by
  intro signature used attached calls final surfaced edges
  obtain ⟨scanning, attaching, calling, recording, scanned, ending⟩ :=
    @extractMethod_stages analysis options _ _ _ _ formed entered ordinary hasBody
  have formedUsed := scanning.wellFormed formed
  have foundUsed := scanning.type?_of_defined found analyzed
  obtain ⟨counted, given⟩ := attachStoredCalls_surfaced formedUsed foundUsed analyzed body
    (calling.trans recording)
  have kept : ∀ holder member, attached.2.catalog.member? holder = some member →
      member.isField ∨ member.isMethod →
      recordedDependencies attached.2.catalog holder =
        recordedDependencies used.2.catalog holder :=
    fun _ _ there kind => attachStoredCalls_kept formedUsed ⟨entry, foundUsed, analyzed⟩ there kind
  have sublist : (edges.map (Dependency.call id ·.2)).Sublist calls.1.dependencies := by
    rw [show calls.1.dependencies = _ from
      callUses_again (attaching.wellFormed formedUsed) recording]
    have targets : ((edges.map (·.2)).map (Dependency.call id)).Sublist _ :=
      (surfaced_sublist entry.fullName body).map (Dependency.call id)
    rwa [List.map_map] at targets
  have own : recordedDependencies final.catalog id = recordedDependencies analysis.catalog id ++
      (signature.1 ++ used.1 ++ calls.1.dependencies) := by
    obtain ⟨_, member, there, isMethod, _⟩ := methodNamed?_eq_some_iff.mp entered
    obtain ⟨later, laterThere, extended⟩ := (Grows.extends (scanning.trans attaching)).member? there
    rw [ending, if_pos rfl, kept id later laterThere (.inr (extended.isMethod.trans isMethod)),
      scanned]
  refine ⟨fun _ _ _ => surfaced?_eq_some_iff, counted, given, kept, sublist, own, ?_⟩
  intro edge surfacedHere
  constructor
  · rw [ending, given]
    apply List.mem_append_left
    apply List.mem_append_right
    exact List.mem_map.mpr ⟨edge, List.mem_filter.mpr ⟨surfacedHere, by simp⟩, rfl⟩
  · rw [own]
    apply List.mem_append_right
    apply List.mem_append_right
    exact sublist.subset (List.mem_map_of_mem surfacedHere)

/-- A constructor that stores two new objects in fields of properties. Between the two it calls a
method whose result it does not keep, and one whose result goes to a field that has no property. -/
def cartConstructor : MethodDefinition :=
  let cart : TypeReference := { fullName := "Shop.Cart" }
  let list : TypeReference := { fullName := "Sys.List" }
  let void : TypeReference := { fullName := "Sys.Void" }
  let create : MethodReference := .ofSignature list ".ctor" void []
  let call (method : MethodReference) : Instruction :=
    { opcode := .call, operand := some (.method method) }
  let store (name : String) : Instruction :=
    { opcode := .stfld, operand := some (.field (.ofName cart name list)) }
  { MethodDefinition.ofSignature cart ".ctor" void [] with
    isConstructor := true
    body := some { instructions :=
      [call create, store "_items", call (.ofSignature cart "Reset" void []),
        call (.ofSignature list "Empty" list []), store "_spare", call create, store "_notes"] } }

def cartMetadata : Metadata :=
  let list : TypeReference := { fullName := "Sys.List" }
  { assemblies :=
      [{ name := "shop"
         types :=
          [{ fullName := "Shop.Cart"
             methods := [cartConstructor]
             properties :=
              [{ name := "Items", fullName := "Shop.Cart::Items", propertyType := list },
                { name := "Notes", fullName := "Shop.Cart::Notes", propertyType := list }] }] }] }

theorem stored_calls_twinned_cart :
    let analysis := (allocate {} cartMetadata).2
    let options : Options := {}
    let body := cartConstructor.body.getD {}
    let used := (analysis.signatureUses ⟨0⟩ cartConstructor).2.bodyUses ⟨0⟩ cartConstructor.body
    let attached := used.2.attachStoredCalls options.callPolicy ⟨0⟩ body
    let calls := attached.2.callUses options.callPolicy ⟨0⟩ (some body)
    let final := (analysis.extractMethod options ⟨0⟩ cartConstructor).2
    analysis.catalog.WellFormed ∧ analysis.catalog.Defined ⟨0⟩ ∧
      analysis.catalog.methodNamed? ⟨0⟩ cartConstructor.fullName = some ⟨0⟩ ∧
      cartConstructor.isAccessor = false ∧ attached.1 = 2 ∧
      [Dependency.call ⟨0⟩ ⟨3⟩, .call ⟨0⟩ ⟨3⟩].Sublist calls.1.dependencies ∧
      (∀ property ∈ [(⟨1⟩ : MemberId), ⟨2⟩],
        .call property ⟨3⟩ ∈ recordedDependencies final.catalog property) ∧
      .call ⟨0⟩ ⟨3⟩ ∈ recordedDependencies final.catalog ⟨0⟩ := by
  intro analysis options body used attached calls final
  have formed : analysis.catalog.WellFormed := allocated_wellFormed cartMetadata
  have defined : (analysis.catalog.type? ⟨0⟩).any fun entry =>
      !entry.isStub && entry.fullName == "Shop.Cart" := by decide +kernel
  have entered : analysis.catalog.methodNamed? ⟨0⟩ cartConstructor.fullName = some ⟨0⟩ := by
    decide +kernel
  have edges : (adjacentPairs body.instructions).filterMap
      (surfaced? used.2 final options.callPolicy ⟨0⟩ "Shop.Cart") =
        [(⟨1⟩, ⟨3⟩), (⟨2⟩, ⟨3⟩)] := by decide +kernel
  clear_value analysis
  obtain ⟨entry, found, fits⟩ := (Option.any_eq_true ..).mp defined
  simp only [Bool.and_eq_true, Bool.not_eq_true', beq_iff_eq] at fits
  obtain ⟨_, counted, _, _, sublist, _, twinned⟩ := @stored_calls_twinned analysis options ⟨0⟩ entry
    cartConstructor ⟨0⟩ body formed found fits.1 entered rfl rfl
  rw [fits.2, edges] at counted sublist twinned
  refine ⟨formed, ⟨entry, found, fits.1⟩, entered, rfl, ?_, ?_, ?_, ?_⟩
  · simp only [attached, used]
    exact counted
  · simp only [calls, attached, used]
    exact sublist
  · intro property there
    have held : (property, ⟨3⟩) ∈ [((⟨1⟩ : MemberId), (⟨3⟩ : MemberId)), (⟨2⟩, ⟨3⟩)] := by
      simpa using there
    exact (twinned _ held).1
  · exact (twinned _ List.mem_cons_self).2

end MemberGraph
