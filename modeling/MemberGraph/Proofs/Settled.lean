import MemberGraph.Proofs.Stability

/-!
Look-ups that add nothing. A reference is settled once it was looked up: all that it names is there,
so it is looked up again with the same answer and without a change. No extraction unsettles it.
-/

set_option autoImplicit false

namespace MemberGraph

namespace Catalog

/-- Resolving a call operand adds nothing: its type is there, and it leads to a method of the type, to
nowhere or to a member that has its name already. In the last case the types of its signature are
looked up as well, and have to be there. -/
inductive Settled (catalog : Catalog) (policy : CallPolicy) (reference : MethodReference) : Prop where
  | found {on : TypeId} {id : MemberId}
      (typed : catalog.typeNamed? reference.declaringType.fullName = some on)
      (method : catalog.methodNamed? on reference.fullName = some id)
  | unwanted {on : TypeId} (typed : catalog.typeNamed? reference.declaringType.fullName = some on)
      (unwanted : ¬(policy = .stubExternal ∧ catalog.isStubType on))
  | taken {on : TypeId} {id : MemberId}
      (typed : catalog.typeNamed? reference.declaringType.fullName = some on)
      (taken : catalog.memberNamed? reference.fullName = some id)
      (returns : (catalog.typeNamed? reference.returnType.fullName).isSome)
      (parameters : ∀ parameter ∈ reference.parameters,
        (catalog.typeNamed? parameter.fullName).isSome)

section Settled

variable {policy : CallPolicy} {old new : Catalog}

theorem Extends.typeNamed?_isSome (extended : old.Extends new) {name : String}
    (known : (old.typeNamed? name).isSome) : (new.typeNamed? name).isSome := by
  obtain ⟨id, named⟩ := Option.isSome_iff_exists.mp known
  rw [extended.typeNamed? named]
  rfl

theorem Extends.methodNamed? (extended : old.Extends new) {on : TypeId} {name : String}
    {id : MemberId} (found : old.methodNamed? on name = some id) :
    new.methodNamed? on name = some id := by
  obtain ⟨named, member, there, isMethod, declared⟩ := methodNamed?_eq_some_iff.mp found
  obtain ⟨later, laterThere, memberExtended⟩ := extended.member? there
  exact methodNamed?_eq_some_iff.mpr ⟨extended.memberNamed? named, later, laterThere,
    memberExtended.isMethod.trans isMethod, memberExtended.declaringType.trans declared⟩

theorem Settled.extended {reference : MethodReference} (settled : old.Settled policy reference)
    (sound : old.Sound) (extended : old.Extends new) : new.Settled policy reference := by
  cases settled with
  | found typed method => exact .found (extended.typeNamed? typed) (extended.methodNamed? method)
  | unwanted typed unwanted =>
      refine .unwanted (extended.typeNamed? typed) ?_
      rwa [extended.isStubType_eq (sound.typeNamed? typed)]
  | taken typed taken returns parameters =>
      exact .taken (extended.typeNamed? typed) (extended.memberNamed? taken)
        (extended.typeNamed?_isSome returns)
        fun parameter there => extended.typeNamed?_isSome (parameters parameter there)

end Settled

end Catalog

namespace Analysis

open Catalog

variable {analysis later : Analysis} {policy : CallPolicy}

/-! ## Types -/

private theorem typeFor_of_isSome {reference : TypeReference}
    (known : (analysis.catalog.typeNamed? reference.fullName).isSome) :
    (analysis.typeFor reference).2 = analysis := by
  obtain ⟨id, named⟩ := Option.isSome_iff_exists.mp known
  rw [typeFor_of_known named]

theorem typesFor_of_known {references : List TypeReference}
    (known : ∀ reference ∈ references, (analysis.catalog.typeNamed? reference.fullName).isSome) :
    (analysis.typesFor references).2 = analysis := by
  induction references with
  | nil => rfl
  | cons reference rest ih =>
      have first := typeFor_of_isSome (known reference List.mem_cons_self)
      have others := ih fun other there => known other (List.mem_cons_of_mem _ there)
      simp only [typesFor, first, others]

theorem typesFor_settles (references : List TypeReference) :
    ∀ reference ∈ references,
      ((analysis.typesFor references).2.catalog.typeNamed? reference.fullName).isSome := by
  intro reference there
  have named := List.mem_map_of_mem (f := fun reference : TypeReference =>
    (analysis.typesFor references).2.catalog.typeNamed? reference.fullName) there
  rw [← typesFor_named] at named
  obtain ⟨id, _, same⟩ := List.mem_map.mp named
  rw [← same]
  rfl

/-! ## Calls -/

private theorem methodFor_of_taken {on : TypeId} {reference : MethodReference} {id : MemberId}
    (missing : analysis.catalog.methodNamed? on reference.fullName = none)
    (taken : analysis.catalog.memberNamed? reference.fullName = some id)
    (returns : (analysis.catalog.typeNamed? reference.returnType.fullName).isSome)
    (parameters : ∀ parameter ∈ reference.parameters,
      (analysis.catalog.typeNamed? parameter.fullName).isSome) :
    (analysis.methodFor on reference).2.catalog = analysis.catalog := by
  rw [methodFor_of_missing missing]
  dsimp only
  rw [typeFor_of_isSome returns, typesFor_of_known parameters, addMember_of_known _ taken]

theorem resolve_of_settled {reference : MethodReference}
    (settled : analysis.catalog.Settled policy reference) :
    (analysis.resolve policy reference).2.catalog = analysis.catalog := by
  obtain ⟨on, typed⟩ : ∃ on, analysis.catalog.typeNamed? reference.declaringType.fullName =
      some on := by
    cases settled with
    | found typed => exact ⟨_, typed⟩
    | unwanted typed => exact ⟨_, typed⟩
    | taken typed => exact ⟨_, typed⟩
  have cases := @resolve_cases analysis policy reference
  rw [typeFor_of_known typed] at cases
  rcases cases with ⟨id, _, resolved⟩ | ⟨missing, wanted, resolved⟩ | ⟨_, _, _, kept⟩
  · rw [resolved]
  · rw [resolved]
    cases settled with
    | found sameType method =>
        rw [typed, Option.some.injEq] at sameType
        rw [← sameType, missing] at method
        cases method
    | unwanted sameType unwanted =>
        rw [typed, Option.some.injEq] at sameType
        exact absurd (sameType ▸ wanted) unwanted
    | taken _ taken returns parameters => exact methodFor_of_taken missing taken returns parameters
  · exact kept

private theorem methodFor_settles {on : TypeId} {reference : MethodReference}
    (typed : analysis.catalog.typeNamed? reference.declaringType.fullName = some on)
    (missing : analysis.catalog.methodNamed? on reference.fullName = none) :
    (analysis.methodFor on reference).2.catalog.Settled policy reference := by
  have taken := @methodFor_named analysis on reference
  rw [methodFor_of_missing missing] at taken ⊢
  dsimp only at taken ⊢
  generalize returned : analysis.typeFor reference.returnType = withReturn at taken ⊢
  generalize given : withReturn.2.typesFor reference.parameters = withParameters at taken ⊢
  have returning : Grows .existingOnly analysis.catalog withReturn.2.catalog :=
    returned ▸ typeFor_grows _
  have giving : Grows .existingOnly withReturn.2.catalog withParameters.2.catalog :=
    given ▸ typesFor_grows _
  have adding := @extends_addMember withParameters.2.catalog reference.fullName
    (stubMethod reference on withReturn.1 withParameters.1)
  refine .taken ((Grows.extends (returning.trans giving)).trans adding |>.typeNamed? typed) taken ?_
    fun parameter there => adding.typeNamed?_isSome ?_
  · have named := @typeFor_named analysis reference.returnType
    rw [returned] at named
    rw [(giving.extends.trans adding).typeNamed? named]
    rfl
  · exact given ▸ typesFor_settles reference.parameters parameter there

theorem resolve_settles (reference : MethodReference) :
    (analysis.resolve policy reference).2.catalog.Settled policy reference := by
  have typed := @typeFor_named analysis reference.declaringType
  rcases @resolve_cases analysis policy reference with
    ⟨id, found, resolved⟩ | ⟨missing, _, resolved⟩ | ⟨_, unwanted, _, kept⟩
  · rw [resolved]
    exact .found typed found
  · rw [resolved]
    exact methodFor_settles typed missing
  · rw [kept]
    exact .unwanted typed unwanted

/-- What a call operand leads to stays the same from when it was first resolved. -/
theorem resolve_again (formed : analysis.catalog.WellFormed) {reference : MethodReference}
    (grows : Grows policy analysis.catalog later.catalog)
    (extended : (analysis.resolve policy reference).2.catalog.Extends later.catalog) :
    (later.resolve policy reference).1 = (analysis.resolve policy reference).1 ∧
      (later.resolve policy reference).2.catalog = later.catalog := by
  have resolving : Grows policy analysis.catalog (analysis.resolve policy reference).2.catalog :=
    resolve_grows formed.sound reference
  have settled := (resolve_settles reference).extended (resolving.sound formed.sound) extended
  have unchanged := resolve_of_settled settled
  refine ⟨?_, unchanged⟩
  have alike : (later.resolve policy reference).1.isSome =
      (analysis.resolve policy reference).1.isSome := by
    rw [resolve_isSome (grows.wellFormed formed), resolve_isSome formed, grows.resolvable formed]
  cases answer : (analysis.resolve policy reference).1 with
  | none => simpa [answer] using alike
  | some id =>
      rw [answer, Option.isSome_some, Option.isSome_iff_exists] at alike
      obtain ⟨again, found⟩ := alike
      have named := resolve_named found
      rw [unchanged, extended.memberNamed? (resolve_named answer)] at named
      rw [found, named]

theorem resolveAll_again (formed : analysis.catalog.WellFormed) {references : List MethodReference}
    (grows : Grows policy (analysis.resolveAll policy references).2.catalog later.catalog) :
    (analysis.resolveAll policy references).1 =
      references.map fun reference => (later.resolve policy reference).1 := by
  induction references generalizing analysis with
  | nil => rfl
  | cons reference rest ih =>
      have first : Grows policy analysis.catalog (analysis.resolve policy reference).2.catalog :=
        resolve_grows formed.sound reference
      have others : Grows policy (analysis.resolve policy reference).2.catalog later.catalog :=
        (resolveAll_grows (first.sound formed.sound) rest).trans grows
      have again := (resolve_again formed (first.trans others) others.extends).1
      have further := ih (first.wellFormed formed) grows
      simp only [resolveAll, List.map_cons, again, further]

theorem resolveAll_of_settled {references : List MethodReference}
    (settled : ∀ reference ∈ references, analysis.catalog.Settled policy reference) :
    (analysis.resolveAll policy references).2.catalog = analysis.catalog := by
  induction references generalizing analysis with
  | nil => rfl
  | cons reference rest ih =>
      have first := resolve_of_settled (settled reference List.mem_cons_self)
      have others : ∀ other ∈ rest,
          (analysis.resolve policy reference).2.catalog.Settled policy other := by
        intro other there
        rw [first]
        exact settled other (List.mem_cons_of_mem _ there)
      exact (ih others).trans first

theorem resolveAll_settles (sound : analysis.catalog.Sound) (references : List MethodReference) :
    ∀ reference ∈ references,
      (analysis.resolveAll policy references).2.catalog.Settled policy reference := by
  induction references generalizing analysis with
  | nil => exact fun _ there => by cases there
  | cons first rest ih =>
      intro reference there
      have resolving : Grows policy analysis.catalog (analysis.resolve policy first).2.catalog :=
        resolve_grows sound first
      have soundNow := resolving.sound sound
      rcases List.mem_cons.mp there with rfl | there
      · exact (resolve_settles reference).extended soundNow (resolveAll_grows soundNow rest).extends
      · exact ih soundNow reference there

end Analysis

end MemberGraph
