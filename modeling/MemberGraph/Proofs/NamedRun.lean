import MemberGraph.Proofs.CatalogOutline
import MemberGraph.Proofs.Accounting

/-!
An extraction does what the outlines of the types say: each member gets the edges that the log has
for it, in that order, the links are those of the storage, and the counts are the same.
-/

set_option autoImplicit false

namespace MemberGraph

namespace EdgeLog

theorem edgesOf_append (first second : EdgeLog) (holder : String) :
    edgesOf (first ++ second) holder = first.edgesOf holder ++ second.edgesOf holder := by
  simp [edgesOf]

theorem edgesOf_to (holder name : String) (edges : List NamedEdge) :
    (EdgeLog.to holder edges).edgesOf name = if holder = name then edges else [] := by
  unfold EdgeLog.to edgesOf
  induction edges with
  | nil => simp
  | cons edge rest ih => by_cases same : holder = name <;> simp_all

end EdgeLog

namespace Catalog

/-- From one catalog to the other, each member got the edges that the log has for it, and the types
were looked up. If no stubs of methods are wanted, no other types are new. -/
structure Yields (policy : CallPolicy) (old new : Catalog) (log : EdgeLog) (types : List String) :
    Prop where
  grows : Grows policy old new
  recorded : ∀ {id member}, old.member? id = some member → ∃ added,
    Analysis.recordedDependencies new id = Analysis.recordedDependencies old id ++ added ∧
      new.Spells added (log.edgesOf member.fullName)
  mentioned : ∀ name ∈ types, (new.typeNamed? name).isSome
  nothingElse : policy = .existingOnly → ∀ {name}, (new.typeNamed? name).isSome →
    (old.typeNamed? name).isSome ∨ name ∈ types

section Yields

variable {policy : CallPolicy} {catalog old new first second third : Catalog}

theorem Yields.append {log others : EdgeLog} {types furtherTypes : List String}
    (before : Yields policy first second log types)
    (after : Yields policy second third others furtherTypes) :
    Yields policy first third (log ++ others) (types ++ furtherTypes) where
  grows := before.grows.trans after.grows
  recorded found := by
    obtain ⟨added, recorded, spells⟩ := before.recorded found
    obtain ⟨later, there, extended⟩ := before.grows.extends.member? found
    obtain ⟨further, recordedToo, spellsToo⟩ := after.recorded there
    refine ⟨added ++ further, by rw [recordedToo, recorded, List.append_assoc], ?_⟩
    rw [EdgeLog.edgesOf_append]
    rw [extended.fullName] at spellsToo
    exact (spells.extended after.grows.extends).append spellsToo
  mentioned name there := by
    rcases List.mem_append.mp there with there | there
    · obtain ⟨id, named⟩ := Option.isSome_iff_exists.mp (before.mentioned name there)
      rw [after.grows.extends.typeNamed? named]
      rfl
    · exact after.mentioned name there
  nothingElse only {name} named := by
    rcases after.nothingElse only named with named | there
    · rcases before.nothingElse only named with named | there
      · exact .inl named
      · exact .inr (List.mem_append_left _ there)
    · exact .inr (List.mem_append_right _ there)

theorem Yields.of_recorded {types : List String} (grows : Grows policy old new)
    (same : Analysis.recordedDependencies new = Analysis.recordedDependencies old)
    (mentioned : ∀ name ∈ types, (new.typeNamed? name).isSome)
    (nothingElse : policy = .existingOnly → ∀ {name}, (new.typeNamed? name).isSome →
      (old.typeNamed? name).isSome ∨ name ∈ types) : Yields policy old new [] types where
  grows := grows
  recorded _ := ⟨[], by rw [same, List.append_nil], Spells.nil⟩
  mentioned := mentioned
  nothingElse := nothingElse

theorem Yields.nothing : Yields policy catalog catalog [] [] :=
  .of_recorded .refl rfl (by simp) fun _ _ named => .inl named

theorem Yields.reordered {log : EdgeLog} {types others : List String}
    (yields : Yields policy old new log types) (same : ∀ name, name ∈ others ↔ name ∈ types) :
    Yields policy old new log others where
  grows := yields.grows
  recorded := yields.recorded
  mentioned name there := yields.mentioned name ((same name).mp there)
  nothingElse only {name} named := (yields.nothingElse only named).imp_right (same name).mpr

private theorem Spells.knows {dependencies : List Dependency} {edges : List NamedEdge}
    (spells : catalog.Spells dependencies edges) :
    ∀ dependency ∈ dependencies, catalog.Knows dependency := by
  intro dependency there
  have spelled : catalog.edge? dependency ∈ edges.map some := by
    rw [← show dependencies.map catalog.edge? = edges.map some from spells]
    exact List.mem_map_of_mem there
  obtain ⟨edge, _, spelled⟩ := List.mem_map.mp spelled
  obtain ⟨origin, used⟩ := edge?_eq_some_iff.mp spelled.symm
  obtain ⟨member, found, _⟩ := Option.map_eq_some_iff.mp origin
  cases dependency with
  | onType use origin target =>
      obtain ⟨entry, there, _⟩ := Option.map_eq_some_iff.mp used
      exact ⟨hasMember_of_member? found, hasType_of_type? there⟩
  | call origin target =>
      obtain ⟨called, there, _⟩ := Option.map_eq_some_iff.mp used
      exact ⟨hasMember_of_member? found, hasMember_of_member? there⟩

theorem Yields.addDependencies (formed : catalog.WellFormed) {id : MemberId} {member : Member}
    (found : catalog.member? id = some member) {dependencies : List Dependency}
    {edges : List NamedEdge} (spells : catalog.Spells dependencies edges) :
    Yields policy catalog (catalog.addDependencies id dependencies) (.to member.fullName edges)
      [] where
  grows := .single (.dependencies fun dependency there => .inl (spells.knows dependency there))
  recorded {other holder} there := by
    refine ⟨_, Analysis.recordedDependencies_addDependencies (hasMember_of_member? found) _ _, ?_⟩
    rw [EdgeLog.edgesOf_to]
    by_cases same : id = other
    · subst same
      rw [found] at there
      cases there
      rw [if_pos rfl, if_pos rfl]
      exact spells.extended (extends_addDependencies _ _)
    · rw [if_neg same, if_neg fun equal => same (formed.member?_inj found there equal)]
      exact Spells.nil
  mentioned := by simp
  nothingElse _ _ named := .inl named

theorem Grows.storage (grows : Grows policy old new) (formed : old.WellFormed)
    (paired : old.Paired) (kept : ∀ id, new.backingField? id = old.backingField? id) :
    new.storage = old.storage :=
  storage_kept grows.extends formed (grows.wellFormed formed) paired kept

end Yields

end Catalog

namespace Analysis

open Catalog

variable {analysis : Analysis} {policy : CallPolicy} {on : TypeId}

/-! ## Look-ups -/

private theorem typeFor_yields (reference : TypeReference) :
    Yields policy analysis.catalog (analysis.typeFor reference).2.catalog []
      [reference.fullName] := by
  refine .of_recorded (typeFor_grows reference) (typeFor_recorded reference) ?_ ?_
  · intro name there
    rw [List.mem_singleton.mp there, typeFor_named]
    rfl
  · intro _ name named
    cases known : analysis.catalog.typeNamed? reference.fullName with
    | some id =>
        rw [typeFor_of_known known] at named
        exact .inl named
    | none =>
        rw [(typeFor_of_fresh known).2, addStubType, typeNamed?_addType] at named
        split at named
        · next same => exact .inr (by simp [same])
        · exact .inl named

private theorem typesFor_yields (references : List TypeReference) :
    Yields policy analysis.catalog (analysis.typesFor references).2.catalog []
      (references.map (·.fullName)) := by
  induction references generalizing analysis with
  | nil => exact .nothing
  | cons reference rest ih => exact (typeFor_yields reference).append ih

theorem resolve_yields (sound : analysis.catalog.Sound) (reference : MethodReference) :
    Yields policy analysis.catalog (analysis.resolve policy reference).2.catalog []
      [reference.declaringType.fullName] := by
  have typed : Yields policy analysis.catalog
      (analysis.typeFor reference.declaringType).2.catalog [] _ :=
    typeFor_yields reference.declaringType
  rcases resolve_cases policy reference with ⟨id, _, resolved⟩ | ⟨_, wanted, resolved⟩ |
    ⟨_, _, _, unchanged⟩
  · rw [resolved]
    exact typed
  · have grown : Grows policy (analysis.typeFor reference.declaringType).2.catalog
        (analysis.resolve policy reference).2.catalog := by
      rw [resolved]
      exact methodFor_grows (typed.grows.sound sound) wanted.1 wanted.2 reference
    refine .of_recorded (typed.grows.trans grown) (resolve_recorded reference) ?_ ?_
    · intro name there
      obtain ⟨id, named⟩ := Option.isSome_iff_exists.mp (typed.mentioned name there)
      rw [grown.extends.typeNamed? named]
      rfl
    · intro only
      rw [wanted.1] at only
      cases only
  · rw [unchanged]
    exact typed

private theorem resolveAll_yields (sound : analysis.catalog.Sound)
    (references : List MethodReference) :
    Yields policy analysis.catalog (analysis.resolveAll policy references).2.catalog []
      (references.map (·.declaringType.fullName)) := by
  induction references generalizing analysis with
  | nil => exact .nothing
  | cons reference rest ih =>
      have first : Yields policy analysis.catalog _ _ _ := resolve_yields sound reference
      exact first.append (ih (first.grows.sound sound))

theorem backingField?_of_stubbed {old new : Catalog} (stubbed : old.Stubbed new) (id : MemberId) :
    new.backingField? id = old.backingField? id := by
  cases found : old.member? id with
  | some member => simp [backingField?, linksOf?, found, stubbed.member? found]
  | none =>
      have unlinked : new.backingField? id = none := by
        cases stored : new.backingField? id with
        | none => rfl
        | some field =>
            obtain ⟨member, links, there, isProperty, _⟩ := backingField?_eq_some_iff.mp stored
            obtain ⟨stubs, added, bare⟩ := stubbed
            have beyond : old.members.size ≤ id.index := by simpa [Catalog.member?] using found
            rw [Catalog.member?, ← Array.getElem?_toList, added,
              List.getElem?_append_right (by simpa using beyond)] at there
            have isMethod := (bare member (List.mem_of_getElem? there)).1
            have notProperty := Member.isProperty_of_isMethod isMethod
            rw [Member.isProperty, isProperty] at notProperty
            cases notProperty
      rw [unlinked]
      simp [backingField?, linksOf?, found]

theorem backingField?_addDependencies (catalog : Catalog) (id : MemberId)
    (dependencies : List Dependency) (other : MemberId) :
    (catalog.addDependencies id dependencies).backingField? other = catalog.backingField? other :=
  backingField?_congr (linkState_addDependencies id dependencies other)

/-! ## Stored calls -/

private theorem recordCall_yields (formed : analysis.catalog.WellFormed) {holder target : MemberId}
    {owner : Member} (found : analysis.catalog.member? holder = some owner)
    {reference : MethodReference} (resolved : (analysis.resolve policy reference).1 = some target) :
    Yields policy analysis.catalog
      ((analysis.resolve policy reference).2.catalog.addDependencies holder [.call holder target])
      (.to owner.fullName [⟨.call, owner.fullName, reference.fullName⟩])
      [reference.declaringType.fullName] := by
  have resolving : Yields policy analysis.catalog (analysis.resolve policy reference).2.catalog [] _ :=
    resolve_yields formed.sound reference
  have formedLater := resolving.grows.wellFormed formed
  obtain ⟨later, there, extended⟩ := resolving.grows.extends.member? found
  have spells := (formedLater.reads_call (resolve_named resolved)).spells there
  have recording : Yields policy _ _ _ _ := .addDependencies formedLater there spells
  rw [extended.fullName] at recording
  exact resolving.append recording

/-- What a call yields at one moment is what it yields at any earlier moment `base`. -/
theorem attachCall_yields {base : Catalog} (formed : base.WellFormed) (defined : base.Defined on)
    (grown : Grows policy base analysis.catalog) (call : MethodReference × FieldReference) :
    let attached := analysis.attachCall policy on call.1 call.2
    let outlined := (base.outline policy on).attach call
    Yields policy analysis.catalog attached.2.catalog outlined.log outlined.types ∧
      outlined.statistics = { backingFieldCalls := attached.1.toNat } ∧
      ∀ id, attached.2.catalog.backingField? id = analysis.catalog.backingField? id := by
  obtain ⟨reference, field⟩ := call
  intro attached outlined
  have formedNow := grown.wellFormed formed
  have implemented : (base.outline policy on).implemented? .field field.name field.fullName =
      ((analysis.catalog.implemented? on .field field.name field.fullName).bind base.member?).map
        base.propertyOutline := by
    rw [outline_implemented? formed.sound, grown.implemented? formed.sound defined]
  have resolves : (base.outline policy on).resolves reference =
      analysis.catalog.resolvable policy reference := (grown.resolvable formed reference).symm
  have owned : ∀ {property}, analysis.catalog.implemented? on .field field.name field.fullName =
      some property → ∃ member, base.member? property = some member := by
    intro property found
    rw [grown.implemented? formed.sound defined] at found
    obtain ⟨member, there, _⟩ := implemented?_declared formed.sound found
    exact ⟨member, there⟩
  rcases attachCall_cases policy on reference field with
    ⟨property, target, searched, found, same, resolved, answer, final⟩ |
    ⟨property, searched, found, same, unresolved, answer, final⟩ | ⟨missing, answer, final⟩
  · obtain ⟨owner, ownerFound⟩ := owned found
    obtain ⟨later, there, extended⟩ := grown.extends.member? ownerFound
    have leads : analysis.catalog.resolvable policy reference := by
      rw [← same, ← resolve_isSome (same ▸ formedNow), resolved]
      rfl
    have recording := recordCall_yields (same ▸ formedNow) (same ▸ there) resolved
    have opened : outlined =
        { log := .to owner.fullName [⟨.call, owner.fullName, reference.fullName⟩]
          statistics := { backingFieldCalls := 1 }
          types := [reference.declaringType.fullName] } := by
      simp [outlined, Outline.attach, implemented, found, ownerFound, propertyOutline,
        Outline.calls, resolves, leads]
    rw [extended.fullName] at recording
    refine ⟨?_, by rw [opened, show attached.1 = true from answer]; rfl, fun id => ?_⟩
    · rw [opened, show attached.2.catalog = _ from final, ← same]
      exact recording
    · rw [show attached.2.catalog = _ from final, backingField?_addDependencies,
        backingField?_of_stubbed (resolve_stubbed reference), same]
  · obtain ⟨owner, ownerFound⟩ := owned found
    have nowhere : analysis.catalog.resolvable policy reference = false := by
      rw [← same, ← resolve_isSome (same ▸ formedNow), unresolved]
      rfl
    have resolving : Yields policy searched.catalog
        (searched.resolve policy reference).2.catalog [] _ :=
      resolve_yields (same ▸ formedNow.sound) reference
    have opened : outlined = { types := [reference.declaringType.fullName] } := by
      simp [outlined, Outline.attach, implemented, found, ownerFound, propertyOutline,
        Outline.calls, resolves, nowhere, EdgeLog.to]
    refine ⟨?_, by rw [opened, show attached.1 = false from answer]; rfl, fun id => ?_⟩
    · rw [opened, show attached.2.catalog = _ from final, ← same]
      exact resolving
    · rw [show attached.2.catalog = _ from final,
        backingField?_of_stubbed (resolve_stubbed reference), same]
  · have opened : outlined = {} := by simp [outlined, Outline.attach, implemented, missing]
    refine ⟨?_, by rw [opened, show attached.1 = false from answer]; rfl, fun id => ?_⟩
    · rw [opened, show attached.2.catalog = _ from final]
      exact .nothing
    · rw [show attached.2.catalog = _ from final]

private theorem attachCalls_yields {base : Catalog} (formed : base.WellFormed)
    (defined : base.Defined on)
    (grown : Grows policy base analysis.catalog) (calls : List (MethodReference × FieldReference)) :
    let attached := analysis.attachCalls policy on calls
    let outlined := (base.outline policy on).attachAll calls
    Yields policy analysis.catalog attached.2.catalog outlined.log outlined.types ∧
      outlined.statistics = { backingFieldCalls := attached.1 } ∧
      ∀ id, attached.2.catalog.backingField? id = analysis.catalog.backingField? id := by
  induction calls generalizing analysis with
  | nil => exact ⟨.nothing, rfl, fun _ => rfl⟩
  | cons call rest ih =>
      obtain ⟨first, counted, kept⟩ := attachCall_yields formed defined grown call
      obtain ⟨others, countedToo, keptToo⟩ := ih (grown.trans first.grows)
      refine ⟨first.append others, ?_, fun id => (keptToo id).trans (kept id)⟩
      rw [Outline.attachAll, Yield.append]
      dsimp only
      rw [counted, countedToo]
      rfl

/-! ## Accessors -/

/-- A catalog for which the outline of the type `on` says what an extraction does. -/
structure Outlined (catalog : Catalog) (on : TypeId) : Prop extends Ready catalog on where
  together : catalog.LinkedTogether

theorem Outlined.grown {old new : Catalog} (outlined : Outlined old on) (grows : Grows policy old new)
    (ready : Ready new on) : Outlined new on := by
  have relinked : Relinkings False old new := grows.relinkings
  exact ⟨ready, relinked.linkedTogether outlined.together⟩

theorem Outlined.outline {old new : Catalog} (outlined : Outlined old on)
    (outlinedNew : Outlined new on) (grows : Grows policy old new) :
    new.outline policy on = old.outline policy on :=
  outline_grows grows outlined.toReady outlinedNew.toReady

theorem Outlined.recorded {old new : Catalog} (outlined : Outlined old on)
    (grows : Grows policy old new) (same : recordedDependencies new = recordedDependencies old) :
    Outlined new on :=
  outlined.grown grows (outlined.toReady.grown grows fun _ _ => by
    rw [recordedCount, same, recordedCount])

private theorem linkStorage_storage {catalog : Catalog} (outlined : Outlined catalog on)
    {property : MemberId} {owner : Member} (found : catalog.member? property = some owner)
    (isProperty : owner.isProperty) (body : MethodBody) :
    (linkStorage catalog on property body).storage =
      (catalog.outline policy on).store catalog.storage owner.fullName body := by
  unfold linkStorage Outline.store
  rw [outline_candidate? outlined.formed outlined.paired outlined.together found outlined.defined]
  cases candidate : storageCandidate? catalog on property body with
  | none => rfl
  | some field =>
      obtain ⟨stored, fieldFound, _⟩ := storageCandidate?_declared outlined.formed.sound candidate
      obtain ⟨entry, _, chosen⟩ := Option.bind_eq_some_iff.mp candidate
      have allowed := (List.mem_filter.mp (List.mem_of_getLast? chosen)).2
      obtain ⟨links, isLinked⟩ := Option.isSome_iff_exists.mp isProperty
      have linked : catalog.linksOf? property = some links :=
        linksOf?_eq_some_iff.mpr ⟨owner, found, isLinked⟩
      simp only [Option.bind_some, fieldFound, Option.map_some]
      exact storage_linkBacking outlined.formed allowed linked found fieldFound

private theorem withStorage_yields (sound : analysis.catalog.Sound) {property : MemberId}
    {owner : Member}
    (found : analysis.catalog.member? property = some owner) (declared : owner.declaringType = on)
    (body : MethodBody) :
    Yields policy analysis.catalog (analysis.withStorage policy on property body) []
      ((calledMethods body).map (·.declaringType.fullName)) := by
  have resolved : Yields policy analysis.catalog
      (analysis.resolveAll policy (calledMethods body)).2.catalog [] _ :=
    resolveAll_yields sound (calledMethods body)
  have grown : Grows policy analysis.catalog (analysis.withStorage policy on property body) :=
    withStorage_grows sound found declared body
  have named : (analysis.withStorage policy on property body).typeNamed? =
      (analysis.resolveAll policy (calledMethods body)).2.catalog.typeNamed? := by
    funext name
    unfold withStorage linkStorage
    split
    · exact (updated_linkBacking _ _).typeNamed? ..
    · rfl
  refine .of_recorded grown (withStorage_recorded property body) ?_ ?_
  · rw [named]
    exact resolved.mentioned
  · rw [named]
    exact resolved.nothingElse

private theorem recordBoth_yields {catalog : Catalog} (formed : catalog.WellFormed)
    (paired : catalog.Paired)
    {first second : MemberId} {one other : Member} (found : catalog.member? first = some one)
    (foundToo : catalog.member? second = some other) {dependencies : List Dependency}
    {edges : List NamedEdge} (spells : catalog.Spells dependencies edges) :
    let final := (catalog.addDependencies first dependencies).addDependencies second dependencies
    Yields policy catalog final (.to one.fullName edges ++ .to other.fullName edges) [] ∧
      final.storage = catalog.storage := by
  intro final
  have recorded : Yields policy catalog _ _ [] := .addDependencies formed found spells
  obtain ⟨later, there, extended⟩ := recorded.grows.extends.member? foundToo
  have recordedToo : Yields policy _ final _ [] :=
    .addDependencies (recorded.grows.wellFormed formed) there (spells.extended recorded.grows.extends)
  rw [extended.fullName] at recordedToo
  refine ⟨recorded.append recordedToo, ?_⟩
  refine Grows.storage (recorded.grows.trans recordedToo.grows) formed paired fun id => ?_
  rw [backingField?_addDependencies, backingField?_addDependencies]

section Tied

variable (outlined : Outlined analysis.catalog on) {property : MemberId} {owner : Member}
  (found : analysis.catalog.member? property = some owner)
include outlined found

private theorem withStorage_storage (isProperty : owner.isProperty) (body : MethodBody) :
    (analysis.withStorage policy on property body).storage =
      (analysis.catalog.outline policy on).store analysis.catalog.storage owner.fullName body := by
  -- The calls of the body are resolved first. That changes no link, so the storage before it counts.
  have resolving : Grows policy analysis.catalog
      (analysis.resolveAll policy (calledMethods body)).2.catalog :=
    resolveAll_grows outlined.formed.sound _
  have stubbed : analysis.catalog.Stubbed
      (analysis.resolveAll policy (calledMethods body)).2.catalog := resolveAll_stubbed _
  have outlinedResolved := outlined.recorded resolving (resolveAll_recorded _)
  have linked : (analysis.withStorage policy on property body).storage = Outline.store
      ((analysis.resolveAll policy (calledMethods body)).2.catalog.outline policy on) _ _ _ :=
    linkStorage_storage outlinedResolved (stubbed.member? found) isProperty body
  rw [linked, outlined.outline outlinedResolved resolving,
    resolving.storage outlined.formed outlined.paired (backingField?_of_stubbed stubbed)]

private theorem tiedDependencies_spelled (declared : owner.declaringType = on) (body : MethodBody) :
    (analysis.withStorage policy on property body).Spells
      (analysis.tiedDependencies policy on property body)
      ((analysis.catalog.outline policy on).calls owner.fullName (calledMethods body) ++
        (analysis.catalog.outline policy on).inherited
          (analysis.withStorage policy on property body).storage owner.fullName) := by
  have resolving : Grows policy analysis.catalog
      (analysis.resolveAll policy (calledMethods body)).2.catalog :=
    resolveAll_grows outlined.formed.sound _
  have storing : Grows policy analysis.catalog (analysis.withStorage policy on property body) :=
    withStorage_grows outlined.formed.sound found declared body
  have linking : Grows policy (analysis.resolveAll policy (calledMethods body)).2.catalog
      (analysis.withStorage policy on property body) :=
    linkStorage_grows (resolving.sound outlined.formed.sound)
      ((resolveAll_stubbed (calledMethods body)).member? found) declared body
  have outlinedStored := outlined.recorded storing (withStorage_recorded property body)
  obtain ⟨later, there, extended⟩ := storing.extends.member? found
  have called := (callsTo_reads outlined.formed outlinedStored.formed property
    linking.extends).spells there
  have inherits : Spells _ _ (Outline.inherited
      ((analysis.withStorage policy on property body).outline policy on) _ _) :=
    outline_inherited outlinedStored.formed outlinedStored.paired outlinedStored.together there
      (extended.declaringType.trans declared)
  rw [outlined.outline outlinedStored storing, extended.fullName] at inherits
  rw [List.map_map, extended.fullName] at called
  exact called.append inherits

private theorem linkAccessor_yields (isProperty : owner.isProperty)
    (declared : owner.declaringType = on)
    (body : MethodBody) {method : MemberId} {definition : MethodDefinition}
    (named : analysis.catalog.memberName? method = some definition.fullName) {link : AccessorLink}
    (succeeded : (analysis.linkAccessor policy on property method definition body).1 = .ok link) :
    let final := (analysis.linkAccessor policy on property method definition body).2.catalog
    let outline := analysis.catalog.outline policy on
    let tied := outline.tie analysis.catalog.storage definition body
      (analysis.catalog.propertyOutline owner)
    Yields policy analysis.catalog final tied.log tied.types ∧ accessorStatistics link = tied.statistics ∧
      final.storage = outline.store analysis.catalog.storage owner.fullName body := by
  intro final outline tied
  have storing : Yields policy analysis.catalog
      (analysis.withStorage policy on property body) [] _ :=
    withStorage_yields outlined.formed.sound found declared body
  have storage : (analysis.withStorage policy on property body).storage =
      outline.store analysis.catalog.storage owner.fullName body :=
    withStorage_storage outlined found isProperty body
  have spells : (analysis.withStorage policy on property body).Spells _ _ :=
    tiedDependencies_spelled outlined found declared body
  rw [storage] at spells
  have outlinedStored := outlined.recorded storing.grows (withStorage_recorded property body)
  obtain ⟨later, there, extended⟩ := storing.grows.extends.member? found
  rcases @linkAccessor_cases analysis policy on property method definition body with
    ⟨accessorKnown, answer, opened⟩ | ⟨_, failed, _⟩
  · obtain ⟨accessor, accessorFound⟩ := hasMember_iff.mp accessorKnown
    -- Which accessor gets the dependencies is read from the links of the property once it is stored;
    -- by name it is the one that the outline has.
    have receiverName : accessor.fullName =
        (analysis.catalog.propertyOutline owner).receiver definition := by
      have name := storing.grows.extends.memberName? (outline_receiver outlined.formed found named)
      rw [← storing.grows.receiver found, memberName?, accessorFound] at name
      exact Option.some.inj name
    obtain ⟨recording, kept⟩ : Yields policy _ final _ _ ∧ final.storage = _ := by
      rw [show final = _ from opened]
      exact recordBoth_yields outlinedStored.formed outlinedStored.paired accessorFound there spells
    rw [receiverName, extended.fullName] at recording
    refine ⟨?_, ?_, kept.trans storage⟩
    · have all := storing.append recording
      rw [List.append_nil] at all
      exact all
    · rw [answer] at succeeded
      cases succeeded
      have stored := storage_isSome outlinedStored.formed outlinedStored.paired there
      rw [storage, extended.fullName] at stored
      simp only [accessorStatistics, tied, Outline.tie, propertyOutline, outline, stored]
  · rw [failed] at succeeded
    cases succeeded

end Tied

private theorem tieAccessor_yields (outlined : Outlined analysis.catalog on) {method : MemberId}
    {definition : MethodDefinition} {body : MethodBody} (hasBody : definition.body = some body)
    (named : analysis.catalog.memberName? method = some definition.fullName) {link : AccessorLink}
    (succeeded : (analysis.tieAccessor policy on method definition).1 = .ok link) :
    let final := (analysis.tieAccessor policy on method definition).2.catalog
    let outline := analysis.catalog.outline policy on
    let tied := (outline.tied? definition).elim { statistics := { unlinkedAccessors := 1 } }
      (outline.tie analysis.catalog.storage definition body)
    Yields policy analysis.catalog final tied.log tied.types ∧ accessorStatistics link = tied.statistics ∧
      final.storage = outline.storedBy analysis.catalog.storage definition := by
  intro final outline tied
  have tiedTo : outline.tied? definition = ((analysis.catalog.tied? on definition).bind
      analysis.catalog.member?).map analysis.catalog.propertyOutline :=
    outline_tied? outlined.formed.sound definition
  rcases @tieAccessor_cases analysis policy on method definition with
    ⟨property, otherBody, searched, found, sameBody, same, opened⟩ |
    ⟨untied, unchanged, outcome⟩
  · rw [hasBody] at sameBody
    cases sameBody
    obtain ⟨owner, there, isProperty, declared⟩ := tied?_declared outlined.formed.sound found
    rw [opened] at succeeded
    rw [← same] at outlined named there
    have linked := linkAccessor_yields outlined there isProperty declared body named succeeded
    rw [same] at linked there
    simp only [found, Option.bind_some, there, Option.map_some] at tiedTo
    simp only [tied, final, tiedTo, Option.elim_some, opened, Outline.storedBy, hasBody]
    exact linked
  · simp only [untied, Option.bind_none, Option.map_none] at tiedTo
    simp only [tied, final, tiedTo, Option.elim_none, unchanged, Outline.storedBy]
    refine ⟨.nothing, ?_, trivial⟩
    rcases outcome with unlinked | ⟨_, failed⟩
    · rw [unlinked] at succeeded
      cases succeeded
      rfl
    · rw [failed] at succeeded
      cases succeeded

/-! ## Methods -/

variable {options : Options}

private theorem attachStoredCalls_yields {analysis : Analysis}
    (outlined : Outlined analysis.catalog on) (body : MethodBody) :
    let attached := analysis.attachStoredCalls policy on body
    let outline := analysis.catalog.outline policy on
    let yield := outline.attachAll (storedCalls outline.typeName body)
    Yields policy analysis.catalog attached.2.catalog yield.log yield.types ∧
      yield.statistics = { backingFieldCalls := attached.1 } ∧
      ∀ id, attached.2.catalog.backingField? id = analysis.catalog.backingField? id := by
  obtain ⟨entry, found, _⟩ := outlined.defined
  simp only [attachStoredCalls, found, outline_typeName found]
  exact attachCalls_yields outlined.formed outlined.defined .refl _

theorem callUses_counts {analysis : Analysis} (formed : analysis.catalog.WellFormed)
    (origin : MemberId) (body : MethodBody) :
    let calls := (analysis.callUses policy origin (some body)).1
    let operands := body.instructions.filterMap Instruction.method?
    calls.dependencies.length = operands.countP (analysis.catalog.resolvable policy) ∧
      calls.unresolved = operands.countP (!analysis.catalog.resolvable policy ·) := by
  intro calls operands
  have found : calls.dependencies.length = operands.countP (analysis.catalog.resolvable policy) :=
    callsTo_length formed origin operands
  have total : calls.dependencies.length + calls.unresolved = operands.length :=
    callUses_total origin body
  have split := operands.length_eq_countP_add_countP (analysis.catalog.resolvable policy)
  simp only [Bool.not_eq_true, Bool.decide_eq_false] at split
  exact ⟨found, by omega⟩

private theorem ordinaryCalls_yields {analysis : Analysis} (outlined : Outlined analysis.catalog on)
    (id : MemberId) {method : MethodDefinition} (ordinary : method.isAccessor = false)
    {body : MethodBody} (hasBody : method.body = some body) :
    let attached := analysis.attachStoredCalls policy on body
    let calls := attached.2.callUses policy id (some body)
    let given := (analysis.catalog.outline policy on).given analysis.catalog.storage method
    Yields policy analysis.catalog calls.2.catalog given.log given.types ∧
      given.statistics = { callDependencies := calls.1.dependencies.length
                           unresolvedCalls := calls.1.unresolved
                           backingFieldCalls := attached.1 } ∧
      calls.2.catalog.storage = analysis.catalog.storage := by
  intro attached calls given
  have operands : ownOperands method = body.instructions.filterMap Instruction.method? := by
    simp [ownOperands_eq, ordinary, hasBody]
  obtain ⟨attaching, counted, kept⟩ : Yields policy analysis.catalog attached.2.catalog _ _ ∧ _ :=
    attachStoredCalls_yields outlined body
  have formedNow := attaching.grows.wellFormed outlined.formed
  have calling : Yields policy attached.2.catalog calls.2.catalog [] _ :=
    resolveAll_yields formedNow.sound (body.instructions.filterMap Instruction.method?)
  have resolves : attached.2.catalog.resolvable policy =
      (analysis.catalog.outline policy on).resolves :=
    funext (attaching.grows.resolvable outlined.formed)
  simp only [given, Outline.given, hasBody, ordinary, operands, Bool.false_eq_true, if_false]
  refine ⟨attaching.append calling, ?_, ?_⟩
  · obtain ⟨found, missing⟩ := @callUses_counts policy _ formedNow id body
    rw [resolves] at found missing
    simp only [Yield.append, counted, Statistics.merge, Nat.zero_add, Nat.add_zero, calls, found,
      missing]
    rfl
  · refine Grows.storage (attaching.grows.trans calling.grows) outlined.formed outlined.paired
      fun other => ?_
    exact (backingField?_of_stubbed (resolveAll_stubbed _) other).trans (kept other)

private theorem methodCalls_yields {analysis : Analysis} (outlined : Outlined analysis.catalog on)
    {id : MemberId} {method : MethodDefinition}
    (named : analysis.catalog.memberName? id = some method.fullName)
    {calls : List Dependency} {statistics : Statistics}
    (succeeded : (analysis.methodCalls options on id method).1 = .ok (calls, statistics)) :
    let final := (analysis.methodCalls options on id method).2.catalog
    let outline := analysis.catalog.outline options.callPolicy on
    let given := outline.given analysis.catalog.storage method
    Yields options.callPolicy analysis.catalog final given.log given.types ∧
      statistics = given.statistics ∧
      final.storage = outline.storedBy analysis.catalog.storage method := by
  intro final outline given
  rcases @methodCalls_cases analysis options on id method with
    ⟨noBody, opened⟩ | ⟨body, hasBody, accessor, after, outcome⟩ |
    ⟨body, hasBody, ordinary, after, outcome⟩
  · rw [opened] at succeeded
    cases succeeded
    simp only [final, given, opened, Outline.given, Outline.storedBy, noBody]
    exact ⟨.nothing, trivial, by cases outline.tied? method <;> rfl⟩
  · cases tied : (analysis.tieAccessor options.callPolicy on id method).1 with
    | error error =>
        rw [outcome, tied] at succeeded
        cases succeeded
    | ok link =>
        rw [outcome, tied] at succeeded
        cases succeeded
        simp only [final, given, after, Outline.given, hasBody, accessor, if_true]
        exact tieAccessor_yields outlined hasBody named tied
  · rw [outcome] at succeeded
    cases succeeded
    have untied : outline.tied? method = none := by
      rw [outline_tied? outlined.formed.sound, tied?_of_not_accessor _ ordinary]
      rfl
    obtain ⟨yields, counts, stored⟩ : Yields options.callPolicy _ _ _ _ ∧ _ :=
      ordinaryCalls_yields outlined id ordinary hasBody
    simp only [final, given, after, Outline.storedBy, untied]
    exact ⟨yields, counts.symm, stored⟩

theorem typeUses_length (use : TypeUse) (origin : MemberId) (references : List TypeReference) :
    (analysis.typeUses use origin references).1.length = references.length := by
  induction references generalizing analysis with
  | nil => rfl
  | cons reference rest ih => exact congrArg (· + 1) ih

theorem usedTypes_yields (id : MemberId) (method : MethodDefinition) :
    Yields policy analysis.catalog
      ((analysis.signatureUses id method).2.bodyUses id method.body).2.catalog []
      (method.mentionedTypes.map (·.fullName)) := by
  rw [method.mentionedTypes_eq, List.map_append]
  exact (typesFor_yields method.signatureTypes).append (typesFor_yields _)

theorem Outlined.usedTypes (outlined : Outlined analysis.catalog on) (id : MemberId)
    (method : MethodDefinition) :
    Outlined ((analysis.signatureUses id method).2.bodyUses id method.body).2.catalog on := by
  have typing : Yields .existingOnly analysis.catalog _ _ _ := usedTypes_yields id method
  exact outlined.recorded typing.grows ((typeUses_recorded ..).trans (typeUses_recorded ..))

theorem usedTypes_kept (outlined : Outlined analysis.catalog on) (id : MemberId)
    (method : MethodDefinition) :
    let used := ((analysis.signatureUses id method).2.bodyUses id method.body).2.catalog
    used.outline policy on = analysis.catalog.outline policy on ∧
      used.storage = analysis.catalog.storage := by
  intro used
  have typing : Yields policy analysis.catalog used _ _ := usedTypes_yields id method
  have stubbed : analysis.catalog.Stubbed used := (typeUses_stubbed ..).trans (typeUses_stubbed ..)
  exact ⟨outlined.outline (outlined.usedTypes id method) typing.grows,
    typing.grows.storage outlined.formed outlined.paired (backingField?_of_stubbed stubbed)⟩

private theorem own_spelled {analysis : Analysis} (outlined : Outlined analysis.catalog on)
    {id : MemberId} {member : Member} (found : analysis.catalog.member? id = some member)
    {method : MethodDefinition} (ownName : member.fullName = method.fullName)
    {calls : List Dependency} {statistics : Statistics} :
    let used := (analysis.signatureUses id method).2.bodyUses id method.body
    let called := used.2.methodCalls options on id method
    called.1 = .ok (calls, statistics) →
    called.2.catalog.Spells ((analysis.signatureUses id method).1 ++ used.1 ++ calls)
      ((analysis.catalog.outline options.callPolicy on).own method) := by
  intro used called succeeded
  have outlinedUsed : Outlined used.2.catalog on := outlined.usedTypes id method
  have typing : Yields options.callPolicy analysis.catalog used.2.catalog [] _ :=
    usedTypes_yields id method
  have calling : Grows options.callPolicy used.2.catalog called.2.catalog :=
    methodCalls_grows outlinedUsed.formed.sound on id method
  have scanning : Grows options.callPolicy (analysis.signatureUses id method).2.catalog
      used.2.catalog := typeUses_grows ..
  have formed := calling.wellFormed outlinedUsed.formed
  have signature : called.2.catalog.Reads id _ _ :=
    typeUses_reads formed .signature id (Grows.extends (scanning.trans calling))
  have body : called.2.catalog.Reads id _ _ := typeUses_reads formed .body id calling.extends
  have calls := methodCalls_reads outlinedUsed.formed formed succeeded (.refl _)
  obtain ⟨later, there, extended⟩ := (Grows.extends (typing.grows.trans calling)).member? found
  have spells := ((signature.append body).append calls).spells there
  rw [extended.fullName, ownName,
    show used.2.catalog.resolvable options.callPolicy = _ from
      funext (typing.grows.resolvable outlined.formed)] at spells
  simp only [List.map_append, List.map_map] at spells
  exact spells

private theorem extractKnownMethod_yields {analysis : Analysis}
    (outlined : Outlined analysis.catalog on) {id : MemberId} {method : MethodDefinition}
    (entered : analysis.catalog.methodNamed? on method.fullName = some id) {statistics : Statistics}
    (succeeded : (analysis.extractKnownMethod options on id method).1 = .ok statistics) :
    let final := (analysis.extractKnownMethod options on id method).2.catalog
    let outline := analysis.catalog.outline options.callPolicy on
    let yield := outline.yield analysis.catalog.storage method
    Yields options.callPolicy analysis.catalog final yield.log yield.types ∧
      statistics = yield.statistics ∧
      final.storage = outline.storageAfter analysis.catalog.storage method := by
  intro final outline yield
  obtain ⟨memberNamed, member, found, _⟩ := methodNamed?_eq_some_iff.mp entered
  obtain ⟨same, there, ownName⟩ := outlined.formed.memberNamed?_iff.mp memberNamed
  rw [found] at there
  cases there
  have spelled := @own_spelled on options analysis outlined id member found method ownName
  have typing : Yields options.callPolicy analysis.catalog _ _ _ := usedTypes_yields id method
  have outlinedUsed := outlined.usedTypes id method
  obtain ⟨sameOutline, sameStorage⟩ : _ = analysis.catalog.outline options.callPolicy on ∧ _ :=
    usedTypes_kept outlined id method
  have signatureLength : (analysis.signatureUses id method).1.length = method.signatureTypes.length :=
    typeUses_length ..
  have bodyLength : ((analysis.signatureUses id method).2.bodyUses id method.body).1.length =
      (method.body.elim [] MethodBody.usedTypes).length := typeUses_length ..
  have opened := @extractKnownMethod_cases analysis options on id method
  dsimp only at opened spelled
  generalize (analysis.signatureUses id method).2.bodyUses id method.body = used
    at typing outlinedUsed sameOutline sameStorage opened spelled bodyLength
  rcases opened with ⟨calls, given, called, answer, after⟩ | ⟨error, _, failed⟩
  · obtain ⟨usedMember, usedThere, usedExtended⟩ := typing.grows.extends.member? found
    have named : used.2.catalog.memberName? id = some method.fullName := by
      simp [memberName?, usedThere, usedExtended.fullName, ownName]
    obtain ⟨giving, counts, stored⟩ := methodCalls_yields outlinedUsed named called
    -- What the body gives is told from before the types of the method were looked up.
    rw [sameOutline, sameStorage] at giving counts stored
    have formedCalled := giving.grows.wellFormed outlinedUsed.formed
    obtain ⟨later, laterThere, extended⟩ := giving.grows.extends.member? usedThere
    have recording : Yields options.callPolicy _ _ _ _ :=
      .addDependencies formedCalled laterThere (spelled called)
    rw [extended.fullName, usedExtended.fullName, ownName] at recording
    have declares : outline.declares method.fullName := by simp [outline, Catalog.outline, entered]
    rw [answer] at succeeded
    cases succeeded
    simp only [yield, Outline.yield, Outline.storageAfter, declares, if_true, final, after]
    refine ⟨?_, ?_, ?_⟩
    · refine (typing.append (giving.append recording)).reordered fun name => ?_
      simp [Yield.append, or_comm, outline]
    · rw [counts, signatureLength, bodyLength]
      rfl
    · have relinked : Relinkings True _ _ := giving.grows.relinkings
      exact (recording.grows.storage formedCalled (relinked.paired outlinedUsed.paired)
        (backingField?_addDependencies _ _ _)).trans stored
  · rw [failed] at succeeded
    cases succeeded

private theorem extractMethod_yields {analysis : Analysis} (outlined : Outlined analysis.catalog on)
    {method : MethodDefinition} {statistics : Statistics}
    (succeeded : (analysis.extractMethod options on method).1 = .ok statistics) :
    let final := (analysis.extractMethod options on method).2.catalog
    let outline := analysis.catalog.outline options.callPolicy on
    let yield := outline.yield analysis.catalog.storage method
    Yields options.callPolicy analysis.catalog final yield.log yield.types ∧
      statistics = yield.statistics ∧
      final.storage = outline.storageAfter analysis.catalog.storage method := by
  unfold extractMethod at succeeded ⊢
  cases entered : analysis.catalog.methodNamed? on method.fullName with
  | none =>
      simp only [entered] at succeeded ⊢
      cases succeeded
      simp only [Outline.yield, Outline.storageAfter, Catalog.outline, entered, Option.isSome_none,
        Bool.false_eq_true, if_false]
      exact ⟨.nothing, trivial, rfl⟩
  | some id =>
      simp only [entered] at succeeded ⊢
      exact extractKnownMethod_yields outlined entered succeeded

/-! ## Runs -/

def outlines (catalog : Catalog) (policy : CallPolicy) (visited : List (TypeId × MethodDefinition)) :
    List (Outline × MethodDefinition) :=
  visited.map fun one => (catalog.outline policy one.1, one.2)

/-- An extraction got from one catalog to the other by the methods visited, as outlines say. -/
structure Follows (options : Options) (start : Catalog) (visited : List (TypeId × MethodDefinition))
    (statistics : Statistics) (catalog : Catalog) : Prop where
  yields :
    let run := runYield start.storage (outlines start options.callPolicy visited)
    Yields options.callPolicy start catalog run.log run.types
  statistics :
    statistics = (runYield start.storage (outlines start options.callPolicy visited)).statistics
  storage :
    catalog.storage = runStorage start.storage (outlines start options.callPolicy visited)

private theorem follows_extraction {start : Catalog} (formed : start.WellFormed)
    (paired : start.Paired) (once : FieldsOnce start) (together : start.LinkedTogether) :
    KeptByExtraction options (Follows options start) := by
  intro analysis on method done total statistics ready succeeded before
  have grows := before.yields.grows
  have outlinedStart : Outlined start on :=
    ⟨⟨formed, paired, grows.defined_before ready.defined, once⟩, together⟩
  have outlined : Outlined analysis.catalog on := outlinedStart.grown grows ready
  obtain ⟨yields, counts, stored⟩ := extractMethod_yields outlined succeeded
  rw [outlinedStart.outline outlined grows, before.storage] at yields counts stored
  have one : outlines start options.callPolicy (done ++ [(on, method)]) =
      outlines start options.callPolicy done ++ [(start.outline options.callPolicy on, method)] := by
    simp [outlines]
  constructor
  · dsimp only
    rw [one, runYield_concat]
    exact before.yields.append yields
  · rw [one, runYield_concat, before.statistics, counts]
    rfl
  · rw [one, runStorage_append]
    exact stored

theorem allocated_linkedTogether (metadata : Metadata) :
    (allocate {} metadata).2.catalog.LinkedTogether := by
  have changes : Changes .existingOnly _ _ := allocated_changes metadata
  have relinked : Relinkings False _ _ := changes.relinkings
  exact relinked.linkedTogether linkedTogether_empty

theorem allocated_backingField? (metadata : Metadata) (id : MemberId) :
    (allocate {} metadata).2.catalog.backingField? id = none := by
  cases stored : (allocate {} metadata).2.catalog.backingField? id with
  | none => rfl
  | some field =>
      obtain ⟨member, links, found, isProperty, backing⟩ := backingField?_eq_some_iff.mp stored
      obtain ⟨definition, isEntry⟩ := allocated_isEntry metadata
        (Array.mem_toList_iff.mpr (Array.mem_of_getElem? found))
      have notStored := isEntry.isStored
      rw [Member.isStored, isProperty, Option.bind_some, backing] at notStored
      cases notStored

theorem allocated_storage (metadata : Metadata) :
    (allocate {} metadata).2.catalog.storage = fun _ => none := by
  funext name
  cases named : (allocate {} metadata).2.catalog.memberNamed? name with
  | none => simp [Catalog.storage, named]
  | some id => simp [Catalog.storage, named, allocated_backingField?]

theorem extracted_follows {metadata : Metadata} {statistics : Statistics}
    (succeeded : ((allocate {} metadata).2.extractTypes options (allocate {} metadata).1).1 =
      .ok statistics) :
    Follows options (allocate {} metadata).2.catalog (visits (allocate {} metadata).1) statistics
      ((allocate {} metadata).2.extractTypes options (allocate {} metadata).1).2.catalog := by
  refine KeptByExtraction.extracted (follows_extraction (allocated_wellFormed metadata)
    (allocated_paired metadata) (allocated_fieldsOnce metadata)
    (allocated_linkedTogether metadata)) succeeded ?_
  exact ⟨.nothing, rfl, rfl⟩

/-! ## Builds -/

section Built

variable {metadata : Metadata} {architecture : Architecture}
  (built : (Architecture.build options metadata).1 = .ok architecture)
include built

theorem built_follows :
    let extracted := (allocate {} metadata).2.extractTypes options (allocate {} metadata).1
    Follows options (allocate {} metadata).2.catalog (visits (allocate {} metadata).1)
        architecture.statistics extracted.2.catalog ∧
      ∃ held, extracted.2.catalog.Mirrors held architecture.catalog := by
  obtain ⟨succeeded, mirrored⟩ := build_mirrors built
  exact ⟨extracted_follows succeeded, mirrored⟩

/-- A member that was loaded has what it was loaded with, and then what the methods gave it. -/
theorem built_spelled {id : MemberId} {member : Member}
    (found : (allocate {} metadata).2.catalog.member? id = some member) :
    let start := (allocate {} metadata).2.catalog
    let run := runYield start.storage
      (outlines start options.callPolicy (visits (allocate {} metadata).1))
    architecture.catalog.Spells (recordedDependencies architecture.catalog id)
      (start.edgesAt id ++ run.log.edgesOf member.fullName) := by
  obtain ⟨followed, held, mirrors⟩ := built_follows built
  obtain ⟨added, recorded, spells⟩ := followed.yields.recorded found
  have initial := ((allocated_wellFormed metadata).spells_edgesAt id).extended
    followed.yields.grows.extends
  dsimp only
  rw [(build_ok built).2.2, recorded]
  exact (initial.append spells).extended mirrors.extends

theorem built_loaded {id : MemberId} {later : Member}
    (found : architecture.catalog.member? id = some later) (defined : later.isStub = false) :
    ∃ member, (allocate {} metadata).2.catalog.member? id = some member ∧
      member.Extends later := by
  obtain ⟨_, held, mirrors⟩ := built_follows built
  obtain ⟨between, backwards, there, rfl⟩ := mirrors.member?_before found
  rcases (extracted_grows metadata options).member?_before there with
    ⟨member, before, extended⟩ | added
  · obtain ⟨same, sameFound, extendedToo⟩ := mirrors.extends.member? there
    rw [found] at sameFound
    cases sameFound
    exact ⟨member, before, extended.trans extendedToo⟩
  · have isStub := added.isStub
    rw [show between.isStub = false from defined] at isStub
    cases isStub

end Built

end Analysis

end MemberGraph
