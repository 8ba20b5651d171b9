import MemberGraph.Proofs.Representation
import MemberGraph.Proofs.Settled

/-!
A call operand leads to the same member at every moment. What goes on between two look-ups may add
stubs, and one of them may even take the full name of the operand. But it is a method of a stub type,
so it is no method of a type that refused the operand before.
-/

set_option autoImplicit false

namespace MemberGraph

namespace Catalog

/-- A type that lacks a method and gets no stub for it. -/
structure Refuses (catalog : Catalog) (policy : CallPolicy) (on : TypeId) (name : String) : Prop where
  known : catalog.hasType on
  missing : catalog.methodNamed? on name = none
  unwanted : ¬(policy = .stubExternal ∧ catalog.isStubType on)

/-- Where a call operand leads once its type is there: to a method of the type, to whatever has its
name if the type takes stubs, or nowhere. -/
inductive LeadsTo (catalog : Catalog) (policy : CallPolicy) (reference : MethodReference) :
    Option MemberId → Prop where
  | method {on : TypeId} {id : MemberId}
      (typed : catalog.typeNamed? reference.declaringType.fullName = some on)
      (found : catalog.methodNamed? on reference.fullName = some id) :
      LeadsTo catalog policy reference (some id)
  | namesake {on : TypeId} {id : MemberId}
      (typed : catalog.typeNamed? reference.declaringType.fullName = some on)
      (wanted : policy = .stubExternal) (stub : catalog.isStubType on)
      (taken : catalog.memberNamed? reference.fullName = some id) :
      LeadsTo catalog policy reference (some id)
  | nowhere {on : TypeId}
      (typed : catalog.typeNamed? reference.declaringType.fullName = some on)
      (refused : catalog.Refuses policy on reference.fullName) :
      LeadsTo catalog policy reference none

/-! ## What is refused stays refused -/

section Refuses

variable {policy : CallPolicy} {old new : Catalog} {on : TypeId} {name : String}

theorem Updated.methodNamed? (updated : old.Updated new) (on : TypeId) (name : String) :
    new.methodNamed? on name = old.methodNamed? on name := by
  apply Option.ext
  intro id
  rw [methodNamed?_eq_some_iff, methodNamed?_eq_some_iff, updated.memberNamed?]
  refine and_congr_right fun _ => ?_
  constructor
  · rintro ⟨later, found, isMethod, declared⟩
    obtain ⟨member, before, extended⟩ := updated.member?_before found
    exact ⟨member, before, extended.isMethod ▸ isMethod, extended.declaringType ▸ declared⟩
  · rintro ⟨member, found, isMethod, declared⟩
    obtain ⟨later, after, extended⟩ := updated.member? found
    exact ⟨later, after, extended.isMethod.trans isMethod, extended.declaringType.trans declared⟩

theorem Refuses.extended (refused : old.Refuses policy on name) (extended : old.Extends new)
    (missing : new.methodNamed? on name = none) : new.Refuses policy on name where
  known := extended.hasType refused.known
  missing := missing
  unwanted := by
    rw [extended.isStubType_eq refused.known]
    exact refused.unwanted

theorem Refuses.growth (refused : old.Refuses policy on name) (growth : Growth policy old new) :
    new.Refuses policy on name := by
  apply refused.extended growth.extends
  cases growth with
  | stubType fresh => exact refused.missing
  | @stubMethod target returnType parameters reference wanted stub fresh _ _ =>
      have elsewhere : target ≠ on := by
        rintro rfl
        exact refused.unwanted ⟨wanted, stub⟩
      apply Option.eq_none_iff_forall_ne_some.mpr
      intro id found
      obtain ⟨named, member, there, isMethod, declared⟩ := methodNamed?_eq_some_iff.mp found
      rcases (member?_addMember_iff _ fresh).mp there with ⟨_, rfl⟩ | before
      · exact elsewhere declared
      · have inRange := hasMember_iff_lt.mp (hasMember_of_member? before)
        rw [memberNamed?_addMember _ fresh] at named
        split at named
        · cases named
          exact absurd inRange (Nat.lt_irrefl _)
        · have foundBefore := methodNamed?_eq_some_iff.mpr ⟨named, member, before, isMethod, declared⟩
          rw [refused.missing] at foundBefore
          cases foundBefore
  | dependencies offered =>
      rw [(updated_addDependencies _ _).methodNamed?]
      exact refused.missing
  | link propertyFound fieldFound sameType =>
      rw [(updated_linkBacking _ _).methodNamed?]
      exact refused.missing

theorem Refuses.grows (refused : old.Refuses policy on name) (grows : Grows policy old new) :
    new.Refuses policy on name := by
  induction grows with
  | refl => exact refused
  | tail _ growth before => exact before.growth growth

end Refuses

theorem LeadsTo.extended {policy : CallPolicy} {old new : Catalog} {reference : MethodReference}
    {answer : Option MemberId} (leads : old.LeadsTo policy reference answer)
    (extended : old.Extends new)
    (refuses : ∀ {on name}, old.Refuses policy on name → new.Refuses policy on name) :
    new.LeadsTo policy reference answer := by
  cases leads with
  | method typed found => exact .method (extended.typeNamed? typed) (extended.methodNamed? found)
  | namesake typed wanted stub taken =>
      exact .namesake (extended.typeNamed? typed) wanted (extended.isStubType stub)
        (extended.memberNamed? taken)
  | nowhere typed refused => exact .nowhere (extended.typeNamed? typed) (refuses refused)

end Catalog

namespace Analysis

open Catalog

variable {analysis later : Analysis} {policy : CallPolicy} {reference : MethodReference}

/-! ## Resolving -/

private theorem resolve_leadsTo (sound : analysis.catalog.Sound) (policy : CallPolicy)
    (reference : MethodReference) :
    (analysis.resolve policy reference).2.catalog.LeadsTo policy reference
      (analysis.resolve policy reference).1 := by
  have typed := @typeFor_named analysis reference.declaringType
  have known := typeFor_known sound reference.declaringType
  rcases resolve_cases policy reference with ⟨id, found, resolved⟩ | ⟨missing, wanted, resolved⟩ |
    ⟨missing, unwanted, unresolved, kept⟩
  · rw [resolved]
    exact .method typed found
  · have typing : Grows policy analysis.catalog
        (analysis.typeFor reference.declaringType).2.catalog := typeFor_grows _
    have stubbing := (methodFor_grows (typing.sound sound) wanted.1 wanted.2 reference).extends
    rw [resolved]
    exact .namesake (stubbing.typeNamed? typed) wanted.1 (stubbing.isStubType wanted.2)
      (methodFor_named _ reference)
  · rw [unresolved, kept]
    exact .nowhere typed ⟨known, missing, unwanted⟩

private theorem resolve_of_leadsTo {answer : Option MemberId}
    (leads : analysis.catalog.LeadsTo policy reference answer) :
    (analysis.resolve policy reference).1 = answer := by
  obtain ⟨on, typed⟩ : ∃ on, analysis.catalog.typeNamed? reference.declaringType.fullName =
      some on := by
    cases leads with
    | method typed => exact ⟨_, typed⟩
    | namesake typed => exact ⟨_, typed⟩
    | nowhere typed => exact ⟨_, typed⟩
  have cases := @resolve_cases analysis policy reference
  rw [typeFor_of_known typed] at cases
  cases leads with
  | method typedToo found =>
      cases typed.symm.trans typedToo
      rcases cases with ⟨id, foundToo, resolved⟩ | ⟨missing, _⟩ | ⟨missing, _⟩
      · rw [resolved]
        exact foundToo.symm.trans found
      · rw [found] at missing
        cases missing
      · rw [found] at missing
        cases missing
  | namesake typedToo wanted stub taken =>
      cases typed.symm.trans typedToo
      rcases cases with ⟨id, found, resolved⟩ | ⟨missing, _, resolved⟩ | ⟨_, unwanted, _⟩
      · rw [resolved]
        exact (methodNamed?_eq_some_iff.mp found).1.symm.trans taken
      · -- A stub is asked for, but the name is taken and leads to the member that has it.
        have named := resolve_named (by rw [resolved])
        rw [resolved] at named ⊢
        exact named.symm.trans ((methodFor_extends on reference).memberNamed? taken)
      · exact absurd ⟨wanted, stub⟩ unwanted
  | nowhere typedToo refused =>
      cases typed.symm.trans typedToo
      rcases cases with ⟨id, found, _⟩ | ⟨_, wanted, _⟩ | ⟨_, _, unresolved, _⟩
      · rw [refused.missing] at found
        cases found
      · exact absurd wanted refused.unwanted
      · exact unresolved

/-! ## Between two look-ups -/

/-- What an extraction may do between two look-ups, with any ids and any dependencies. -/
inductive Interlude (policy : CallPolicy) (analysis : Analysis) : Analysis → Prop where
  | resolve (reference : MethodReference) :
      Interlude policy analysis (analysis.resolve policy reference).2
  | typeFor (reference : TypeReference) : Interlude policy analysis (analysis.typeFor reference).2
  | link (property field : MemberId) :
      Interlude policy analysis
        (analysis.updateCatalog fun catalog => (catalog.linkBacking property field).2)
  | record (id : MemberId) (dependencies : List Dependency) :
      Interlude policy analysis (analysis.updateCatalog (·.addDependencies id dependencies))

abbrev Interludes (policy : CallPolicy) : Analysis → Analysis → Prop :=
  Relation.ReflTransGen (Interlude policy)

theorem Interlude.effect (step : Interlude policy analysis later) (sound : analysis.catalog.Sound) :
    Grows policy analysis.catalog later.catalog ∨
      analysis.catalog.Updated later.catalog ∧ analysis.catalog.Extends later.catalog := by
  cases step with
  | resolve reference => exact .inl (resolve_grows sound reference)
  | typeFor reference => exact .inl (typeFor_grows reference)
  | link property field =>
      exact .inr ⟨updated_linkBacking property field, extends_linkBacking property field⟩
  | record id dependencies =>
      exact .inr ⟨updated_addDependencies id dependencies, extends_addDependencies id dependencies⟩

theorem Interlude.sound (step : Interlude policy analysis later) (sound : analysis.catalog.Sound) :
    later.catalog.Sound := by
  rcases step.effect sound with grows | ⟨updated, _⟩
  · exact grows.sound sound
  · exact sound.of_updated updated

theorem Interlude.extends (step : Interlude policy analysis later)
    (sound : analysis.catalog.Sound) : analysis.catalog.Extends later.catalog := by
  rcases step.effect sound with grows | ⟨_, extended⟩
  · exact grows.extends
  · exact extended

theorem Interlude.refuses (step : Interlude policy analysis later) (sound : analysis.catalog.Sound)
    {on : TypeId} {name : String} (refused : analysis.catalog.Refuses policy on name) :
    later.catalog.Refuses policy on name := by
  rcases step.effect sound with grows | ⟨updated, extended⟩
  · exact refused.grows grows
  · apply refused.extended extended
    rw [updated.methodNamed?]
    exact refused.missing

/-- A run keeps all entries and leads every operand where it led before. -/
theorem Interludes.keep (run : Interludes policy analysis later) (sound : analysis.catalog.Sound) :
    later.catalog.Sound ∧ analysis.catalog.Extends later.catalog ∧
      ∀ {reference answer}, analysis.catalog.LeadsTo policy reference answer →
        later.catalog.LeadsTo policy reference answer := by
  induction run with
  | refl => exact ⟨sound, .refl _, id⟩
  | tail _ step before =>
      obtain ⟨soundNow, extended, leads⟩ := before
      have next := step.extends soundNow
      exact ⟨step.sound soundNow, extended.trans next,
        fun led => (leads led).extended next (step.refuses soundNow)⟩

theorem resolve_isSome_iff (formed : analysis.catalog.WellFormed) (policy : CallPolicy)
    (reference : MethodReference) :
    ∃ on entry, (analysis.typeFor reference.declaringType).2.catalog.type? on = some entry ∧
      entry.fullName = reference.declaringType.fullName ∧
      ((analysis.resolve policy reference).1.isSome ↔
        (∃ id ∈ entry.members, ∃ member,
          (analysis.typeFor reference.declaringType).2.catalog.member? id = some member ∧
            member.isMethod ∧ member.fullName = reference.fullName) ∨
        policy = .stubExternal ∧ entry.isStub) := by
  have typing : Grows policy analysis.catalog
      (analysis.typeFor reference.declaringType).2.catalog := typeFor_grows _
  have formedNow := typing.wellFormed formed
  have named := @typeFor_named analysis reference.declaringType
  have outcome := @resolve_cases analysis policy reference
  generalize analysis.typeFor reference.declaringType = typed at formedNow named outcome ⊢
  obtain ⟨entry, found, fullName⟩ := formedNow.typeNamed?_iff.mp named
  refine ⟨typed.1, entry, found, fullName, ?_⟩
  have isStub : typed.2.catalog.isStubType typed.1 = entry.isStub := by
    simp [isStubType, found]
  have declares : (∃ id ∈ entry.members, ∃ member, typed.2.catalog.member? id = some member ∧
      member.isMethod ∧ member.fullName = reference.fullName) ↔
      ∃ id, typed.2.catalog.methodNamed? typed.1 reference.fullName = some id := by
    simp only [formedNow.mem_members_iff found, methodNamed?_eq_some_iff, formedNow.memberNamed?_iff]
    constructor
    · rintro ⟨id, ⟨member, there, declared⟩, same, thereToo, isMethod, named⟩
      cases there.symm.trans thereToo
      exact ⟨id, ⟨member, there, named⟩, member, there, isMethod, declared⟩
    · rintro ⟨id, ⟨member, there, named⟩, same, thereToo, isMethod, declared⟩
      cases there.symm.trans thereToo
      exact ⟨id, ⟨member, there, declared⟩, member, there, isMethod, named⟩
  rw [declares, ← isStub]
  rcases outcome with ⟨id, method, resolved⟩ | ⟨_, wanted, resolved⟩ |
    ⟨missing, unwanted, unresolved, _⟩
  · simp [resolved, method]
  · rw [resolved]
    exact iff_of_true rfl (.inr wanted)
  · simp [unresolved, missing, unwanted]

end Analysis

open Analysis Catalog

/-- Once a call operand was looked up, it leads to the same member ever after, and looking it up again
adds nothing. It leads somewhere exactly if its type, as a stub if need be, declares the method or takes
stubs. -/
theorem resolution_stable {analysis : Analysis} (formed : analysis.catalog.WellFormed)
    (policy : CallPolicy) (reference : MethodReference) :
    (∀ later, Interludes policy (analysis.resolve policy reference).2 later →
      (later.resolve policy reference).1 = (analysis.resolve policy reference).1 ∧
        (later.resolve policy reference).2.catalog = later.catalog) ∧
    ∃ on entry, (analysis.typeFor reference.declaringType).2.catalog.type? on = some entry ∧
      entry.fullName = reference.declaringType.fullName ∧
      ((analysis.resolve policy reference).1.isSome ↔
        (∃ id ∈ entry.members, ∃ member,
          (analysis.typeFor reference.declaringType).2.catalog.member? id = some member ∧
            member.isMethod ∧ member.fullName = reference.fullName) ∨
        policy = .stubExternal ∧ entry.isStub) := by
  refine ⟨fun later run => ?_, resolve_isSome_iff formed policy reference⟩
  have resolving : Grows policy analysis.catalog (analysis.resolve policy reference).2.catalog :=
    resolve_grows formed.sound reference
  have sound := resolving.sound formed.sound
  obtain ⟨_, extended, leads⟩ := run.keep sound
  constructor
  · exact resolve_of_leadsTo (leads (resolve_leadsTo formed.sound policy reference))
  · exact resolve_of_settled ((resolve_settles reference).extended sound extended)

/-- A method that `Shop.Order` lacks, called on that type and on one that is not defined. The stub that
the second call makes takes the name, and the first call still leads nowhere. -/
theorem resolution_stable_order :
    let analysis := (allocate {} orderMetadata).2
    let void : TypeReference := { fullName := "Sys.Void" }
    let missing : MethodReference := .ofSignature { fullName := "Shop.Order" } "Cancel" void []
    let elsewhere := { missing with declaringType := { fullName := "Shop.Gone" } }
    let later := (((analysis.resolve .stubExternal missing).2.resolve .stubExternal elsewhere).2.typeFor
      { fullName := "Sys.Text" }).2.updateCatalog (·.addDependencies ⟨0⟩ [.call ⟨0⟩ ⟨7⟩])
    analysis.catalog.WellFormed ∧
      Interludes .stubExternal (analysis.resolve .stubExternal missing).2 later ∧
      (later.catalog.memberNamed? missing.fullName).isSome ∧
      (analysis.resolve .stubExternal missing).1 = none ∧
      (later.resolve .stubExternal missing).1 = (analysis.resolve .stubExternal missing).1 ∧
      (later.resolve .stubExternal missing).2.catalog = later.catalog := by
  intro analysis void missing elsewhere later
  have formed : analysis.catalog.WellFormed := by
    have changes : Changes .existingOnly ({} : Analysis).catalog analysis.catalog :=
      allocated_changes orderMetadata
    exact changes.wellFormed wellFormed_empty
  have run : Interludes .stubExternal (analysis.resolve .stubExternal missing).2 later :=
    .tail (.tail (.tail .refl (.resolve elsewhere)) (.typeFor _)) (.record _ _)
  have stable := (resolution_stable formed .stubExternal missing).1 later run
  exact ⟨formed, run, by decide +kernel, by decide +kernel, stable⟩

end MemberGraph
