import MemberGraph.Proofs.Allocation

/-!
Extracting a type a second time. All that a method records depends on the definitions, except for one
thing: what an accessor takes over from the backing field of its property, which it can do only if
the field is known by then. So the second run records as much as the first, and more for each
accessor that came before the first link of its property.
-/

set_option autoImplicit false

namespace MemberGraph.Analysis

open Catalog

variable {options : Options} {on : TypeId}

/-- Whether some accessor finds a backing field of its property when extraction starts from `later`,
but finds none when it starts from `earlier`. -/
def StorageComesLate (options : Options) (on : TypeId) (earlier later : Analysis)
    (methods : List MethodDefinition) : Prop :=
  ∃ before method rest, methods = before ++ method :: rest ∧
    (earlier.catalog.methodNamed? on method.fullName).isSome ∧
    hasStorage (later.afterMethods options on (before ++ [method])) on method = true ∧
    hasStorage (earlier.afterMethods options on (before ++ [method])) on method = false

/-! ## One method -/

private theorem gain_le (catalog : Catalog) (policy : CallPolicy) (on : TypeId)
    (method : MethodDefinition)
    {stored storedToo : Bool} (implies : stored → storedToo) (id : MemberId) :
    gain catalog policy on method stored id ≤ gain catalog policy on method storedToo id := by
  have counts : stored.toNat ≤ storedToo.toNat := by
    cases stored <;> cases storedToo <;> simp_all
  unfold gain
  cases catalog.methodNamed? on method.fullName with
  | none => exact Nat.le_refl 0
  | some entry =>
      dsimp only [tiedGain]
      cases catalog.tied? on method with
      | none => exact Nat.le_refl _
      | some property => dsimp only; split <;> split <;> omega

private theorem gain_lt {catalog : Catalog} (policy : CallPolicy) {method : MethodDefinition}
    (entered : (catalog.methodNamed? on method.fullName).isSome) {property : MemberId}
    (tied : catalog.tied? on method = some property) :
    gain catalog policy on method false property < gain catalog policy on method true property := by
  obtain ⟨entry, found⟩ := Option.isSome_iff_exists.mp entered
  simp only [gain, found, tiedGain, tied, if_true, Bool.toNat_false, Bool.toNat_true]
  split <;> split <;> omega

theorem hasStorage_grows {policy : CallPolicy} {old new : Catalog} (grows : Grows policy old new)
    (sound : old.Sound) (defined : old.Defined on) {method : MethodDefinition}
    (stored : hasStorage old on method) : hasStorage new on method := by
  unfold hasStorage at stored ⊢
  rw [grows.tied? sound defined]
  cases tied : old.tied? on method with
  | none => simp [tied] at stored
  | some property =>
      have relinked : Relinkings True old new := grows.relinkings
      rw [tied] at stored
      exact relinked.backingField?_isSome stored

/-! ## Two runs -/

/-- Two analyses of a type, the second of which starts where the first has come to its end or
later. -/
structure TwoRuns (start : Catalog) (options : Options) (on : TypeId) (earlier later : Analysis)
    (methods : List MethodDefinition) : Prop where
  formed : start.WellFormed
  defined : start.Defined on
  started : Grows options.callPolicy start earlier.catalog
  readyEarlier : Ready earlier.catalog on
  readyLater : Ready later.catalog on
  beyond : Grows options.callPolicy (earlier.afterMethods options on methods) later.catalog
  succeeded : ∃ statistics, (earlier.extractMethods options on methods).1 = .ok statistics
  succeededAgain : ∃ statistics, (later.extractMethods options on methods).1 = .ok statistics

section Runs

variable {start : Catalog} {earlier later : Analysis} {method : MethodDefinition}
  {rest : List MethodDefinition}

structure FirstMethod (start : Catalog) (options : Options) (on : TypeId) (earlier later : Analysis)
    (method : MethodDefinition) (rest : List MethodDefinition) : Prop where
  further : TwoRuns start options on (earlier.extractMethod options on method).2
    (later.extractMethod options on method).2 rest
  startedLater : Grows options.callPolicy start (later.extractMethod options on method).2.catalog
  after : ∀ others, earlier.afterMethods options on (method :: others) =
    (earlier.extractMethod options on method).2.afterMethods options on others
  afterAgain : ∀ others, later.afterMethods options on (method :: others) =
    (later.extractMethod options on method).2.afterMethods options on others
  stays : hasStorage (earlier.extractMethod options on method).2.catalog on method →
    hasStorage (later.extractMethod options on method).2.catalog on method
  count : ∀ id, recordedCount (earlier.extractMethod options on method).2.catalog id =
    recordedCount earlier.catalog id + gain start options.callPolicy on method
      (hasStorage (earlier.extractMethod options on method).2.catalog on method) id
  countAgain : ∀ id, recordedCount (later.extractMethod options on method).2.catalog id =
    recordedCount later.catalog id + gain start options.callPolicy on method
      (hasStorage (later.extractMethod options on method).2.catalog on method) id

private theorem TwoRuns.firstMethod
    (runs : TwoRuns start options on earlier later (method :: rest)) :
    FirstMethod start options on earlier later method rest := by
  obtain ⟨_, succeeded⟩ := runs.succeeded
  obtain ⟨_, succeededAgain⟩ := runs.succeededAgain
  obtain ⟨first, others, ok, okRest, _⟩ := extractMethods_ok succeeded
  obtain ⟨firstAgain, othersAgain, okAgain, okRestAgain, _⟩ :=
    extractMethods_ok succeededAgain
  have after := extractMethods_cons ok
  have step : Grows options.callPolicy earlier.catalog
      (earlier.extractMethod options on method).2.catalog :=
    extractMethod_grows runs.readyEarlier.formed.sound on method
  have stepAgain : Grows options.callPolicy later.catalog
      (later.extractMethod options on method).2.catalog :=
    extractMethod_grows runs.readyLater.formed.sound on method
  have ready := runs.readyEarlier.extractMethod ok
  have toEnd : Grows options.callPolicy (earlier.extractMethod options on method).2.catalog
      ((earlier.extractMethod options on method).2.afterMethods options on rest) :=
    extractMethods_grows ready.formed.sound on rest
  have beyond : Grows options.callPolicy
      ((earlier.extractMethod options on method).2.afterMethods options on rest)
      (later.extractMethod options on method).2.catalog := by
    rw [← after]
    exact runs.beyond.trans stepAgain
  have startedLater : Grows options.callPolicy start later.catalog := by
    have wholeRun : Grows options.callPolicy earlier.catalog
        (earlier.afterMethods options on (method :: rest)) :=
      extractMethods_grows runs.readyEarlier.formed.sound on _
    exact (runs.started.trans wholeRun).trans runs.beyond
  refine ⟨?_, startedLater.trans stepAgain, after, extractMethods_cons okAgain, ?_, ?_, ?_⟩
  · exact ⟨runs.formed, runs.defined, runs.started.trans step, ready,
      runs.readyLater.extractMethod okAgain, beyond, ⟨others, okRest⟩, ⟨othersAgain, okRestAgain⟩⟩
  · exact hasStorage_grows (toEnd.trans beyond) ready.formed.sound ready.defined
  · intro id
    rw [extractMethod_count runs.readyEarlier ok, gain_grows runs.started runs.formed runs.defined]
  · intro id
    rw [extractMethod_count runs.readyLater okAgain,
      gain_grows startedLater runs.formed runs.defined]

theorem storageComesLate_cons (runs : TwoRuns start options on earlier later (method :: rest)) :
    StorageComesLate options on earlier later (method :: rest) ↔
      ((start.methodNamed? on method.fullName).isSome ∧
        hasStorage (later.extractMethod options on method).2.catalog on method = true ∧
        hasStorage (earlier.extractMethod options on method).2.catalog on method = false) ∨
      StorageComesLate options on (earlier.extractMethod options on method).2
        (later.extractMethod options on method).2 rest := by
  have first := runs.firstMethod
  have entries : ∀ name, earlier.catalog.methodNamed? on name = start.methodNamed? on name :=
    runs.started.methodNamed? runs.formed (.inl runs.defined)
  have entriesNext : ∀ name, (earlier.extractMethod options on method).2.catalog.methodNamed? on
      name = start.methodNamed? on name :=
    first.further.started.methodNamed? runs.formed (.inl runs.defined)
  constructor
  · rintro ⟨before, late, others, split, entered, stored, missing⟩
    cases before with
    | nil =>
        obtain ⟨rfl, rfl⟩ := List.cons.inj split
        rw [List.nil_append, first.afterAgain] at stored
        rw [List.nil_append, first.after] at missing
        exact .inl ⟨entries _ ▸ entered, stored, missing⟩
    | cons head before =>
        obtain ⟨rfl, rfl⟩ := List.cons.inj split
        rw [List.cons_append, first.afterAgain] at stored
        rw [List.cons_append, first.after] at missing
        refine .inr ⟨before, late, others, rfl, ?_, stored, missing⟩
        rwa [entriesNext, ← entries]
  · rintro (⟨entered, stored, missing⟩ | ⟨before, late, others, rfl, entered, stored, missing⟩)
    · refine ⟨[], method, rest, rfl, (entries _).symm ▸ entered, ?_, ?_⟩
      · rwa [List.nil_append, first.afterAgain]
      · rwa [List.nil_append, first.after]
    · refine ⟨method :: before, late, others, rfl, ?_, ?_, ?_⟩
      · rwa [entries, ← entriesNext]
      · rwa [List.cons_append, first.afterAgain]
      · rwa [List.cons_append, first.after]

/-- The second run records at least as much as the first for every member, the same if no accessor
came too early, and more for some member otherwise. -/
structure Compared (start : Catalog) (options : Options) (on : TypeId) (earlier later : Analysis)
    (methods : List MethodDefinition) : Prop where
  least : ∀ id, recordedCount (earlier.afterMethods options on methods) id +
    recordedCount later.catalog id ≤
      recordedCount (later.afterMethods options on methods) id + recordedCount earlier.catalog id
  same : ¬StorageComesLate options on earlier later methods → ∀ id,
    recordedCount (later.afterMethods options on methods) id + recordedCount earlier.catalog id =
      recordedCount (earlier.afterMethods options on methods) id + recordedCount later.catalog id
  more : StorageComesLate options on earlier later methods → ∃ id, start.hasMember id ∧
    recordedCount (earlier.afterMethods options on methods) id + recordedCount later.catalog id <
      recordedCount (later.afterMethods options on methods) id + recordedCount earlier.catalog id

private theorem TwoRuns.compared {methods : List MethodDefinition}
    (runs : TwoRuns start options on earlier later methods) :
    Compared start options on earlier later methods := by
  induction methods generalizing earlier later with
  | nil =>
      refine ⟨fun id => ?_, fun _ id => ?_, ?_⟩
      · exact Nat.le_of_eq (Nat.add_comm ..)
      · exact Nat.add_comm ..
      · rintro ⟨before, method, rest, split, _⟩
        simp at split
  | cons method rest ih =>
      have first := runs.firstMethod
      have others := ih first.further
      refine ⟨fun id => ?_, fun notLate id => ?_, fun late => ?_⟩
      · have steps := gain_le start options.callPolicy on method first.stays id
        have further := others.least id
        rw [first.count, first.countAgain] at further
        rw [first.after, first.afterAgain]
        omega
      · rw [storageComesLate_cons runs, not_or] at notLate
        have further := others.same notLate.2 id
        have steps : gain start options.callPolicy on method
            (hasStorage (earlier.extractMethod options on method).2.catalog on method) id =
            gain start options.callPolicy on method
              (hasStorage (later.extractMethod options on method).2.catalog on method) id := by
          cases entered : start.methodNamed? on method.fullName with
          | none => simp [gain, entered]
          | some entry =>
              have stays := first.stays
              have notFirst := notLate.1
              rw [entered] at notFirst
              congr 1
              grind
        rw [first.count, first.countAgain] at further
        rw [first.after, first.afterAgain]
        omega
      · rw [first.after, first.afterAgain]
        rcases (storageComesLate_cons runs).mp late with ⟨entered, stored, missing⟩ | late
        · cases tied : start.tied? on method with
          | none =>
              rw [hasStorage, first.startedLater.tied? runs.formed.sound runs.defined, tied]
                at stored
              cases stored
          | some property =>
              obtain ⟨member, found, _⟩ := tied?_declared runs.formed.sound tied
              have further := others.least property
              have steps := gain_lt options.callPolicy entered tied
              rw [first.count, first.countAgain, stored, missing] at further
              exact ⟨property, hasMember_of_member? found, by omega⟩
        · obtain ⟨id, known, further⟩ := others.more late
          have steps := gain_le start options.callPolicy on method first.stays id
          rw [first.count, first.countAgain] at further
          exact ⟨id, known, by omega⟩

end Runs

/-! ## A type on its own -/

private theorem recordedCount_le {old new : Catalog} (extended : old.Extends new) (id : MemberId) :
    recordedCount old id ≤ recordedCount new id := by
  unfold recordedCount recordedDependencies
  cases found : old.member? id with
  | none => exact Nat.zero_le _
  | some member =>
      obtain ⟨later, there, memberExtended⟩ := extended.member? found
      rw [there]
      exact memberExtended.dependencies.length_le

/-- Extracting a loaded type a second time adds to every member as many dependencies as the first
time, exactly if no accessor came too early the first time: its property had no backing field by
then, but has one when the accessor's turn comes again. In any case it adds no fewer. -/
theorem second_extraction_adds_same_iff {metadata : Metadata} {definition : TypeDefinition}
    (loaded : (on, definition) ∈ (allocate {} metadata).1) :
    let start := (allocate {} metadata).2
    let first := (start.extractType options on definition).2
    let second := (first.extractType options on definition).2
    (start.extractType options on definition).1.isOk →
    (first.extractType options on definition).1.isOk →
    ((∀ id, first.catalog.hasMember id →
        recordedCount second.catalog id - recordedCount first.catalog id =
          recordedCount first.catalog id - recordedCount start.catalog id) ↔
      ¬StorageComesLate options on start first definition.methods) ∧
    ∀ id, recordedCount first.catalog id - recordedCount start.catalog id ≤
      recordedCount second.catalog id - recordedCount first.catalog id := by
  intro start first second firstRun secondRun
  obtain ⟨ok, (firstEnd : first.catalog = _)⟩ := extractType_ok firstRun
  obtain ⟨okAgain, (secondEnd : second.catalog = _)⟩ := extractType_ok secondRun
  have ready := allocated_ready metadata loaded
  have growing : Grows options.callPolicy start.catalog first.catalog := by
    rw [firstEnd]
    exact extractMethods_grows ready.formed.sound on definition.methods
  have readyFirst : Ready first.catalog on := by
    obtain ⟨_, ok⟩ := ok
    exact firstEnd ▸ ready.extractMethods ok
  have growingAgain : Grows options.callPolicy first.catalog second.catalog := by
    rw [secondEnd]
    exact extractMethods_grows readyFirst.formed.sound on definition.methods
  have runs : TwoRuns start.catalog options on start first definition.methods :=
    ⟨ready.formed, ready.defined, .refl, ready, readyFirst, firstEnd ▸ .refl, ok, okAgain⟩
  obtain ⟨least, same, more⟩ := runs.compared
  rw [← firstEnd, ← secondEnd] at least same more
  have monotone := recordedCount_le growing.extends
  have monotoneAgain := recordedCount_le growingAgain.extends
  refine ⟨⟨fun equal late => ?_, fun notLate id _ => ?_⟩, fun id => ?_⟩
  · obtain ⟨id, known, strict⟩ := more late
    have equalHere := equal id (growing.extends.hasMember known)
    have := monotone id
    have := monotoneAgain id
    omega
  · have sameHere := same notLate id
    have := monotone id
    have := monotoneAgain id
    omega
  · have leastHere := least id
    have := monotone id
    have := monotoneAgain id
    omega

theorem second_extraction_adds_same_order :
    let start := (allocate {} orderMetadata).2
    let first := (start.extractType {} ⟨0⟩ orderType).2
    let second := (first.extractType {} ⟨0⟩ orderType).2
    (∀ id, first.catalog.hasMember id →
      recordedCount second.catalog id - recordedCount first.catalog id =
        recordedCount first.catalog id - recordedCount start.catalog id) ∧
      ¬StorageComesLate {} ⟨0⟩ start first orderType.methods := by
  have exactly := @second_extraction_adds_same_iff {} ⟨0⟩ orderMetadata orderType
    (by decide +kernel) (by decide +kernel) (by decide +kernel)
  have evaluated :
      let start := (allocate {} orderMetadata).2
      let first := (start.extractType {} ⟨0⟩ orderType).2
      let second := (first.extractType {} ⟨0⟩ orderType).2
      first.catalog.members.size = 5 ∧
        ∀ index < 5, recordedCount second.catalog ⟨index⟩ - recordedCount first.catalog ⟨index⟩ =
          recordedCount first.catalog ⟨index⟩ - recordedCount start.catalog ⟨index⟩ := by
    decide +kernel
  dsimp only at exactly evaluated ⊢
  generalize (allocate {} orderMetadata).2 = start at exactly evaluated ⊢
  generalize (start.extractType {} ⟨0⟩ orderType).2 = first at exactly evaluated ⊢
  generalize (first.extractType {} ⟨0⟩ orderType).2 = second at exactly evaluated ⊢
  obtain ⟨size, equal⟩ := evaluated
  have same : ∀ id, first.catalog.hasMember id →
      recordedCount second.catalog id - recordedCount first.catalog id =
        recordedCount first.catalog id - recordedCount start.catalog id := by
    intro id known
    rw [hasMember_iff_lt, size] at known
    exact equal id.index known
  exact ⟨same, exactly.1.mp same⟩

/-- A property whose getter computes its value and whose setter stores it. -/
def computedType : TypeDefinition :=
  let type : TypeReference := { fullName := "N.T" }
  let value : TypeReference := { fullName := "N.I" }
  { fullName := "N.T"
    fields := [{ name := "_x", fullName := "N.T::_x", fieldType := value }]
    methods :=
      [{ MethodDefinition.ofSignature type "get_X" value [] with
          isGetter := true
          body := some { instructions := [{ opcode := .ret }] } },
        { MethodDefinition.ofSignature type "set_X" { fullName := "V" } [value] with
          isSetter := true
          body := some { instructions :=
            [{ opcode := .stfld, operand := some (.field (.ofName type "_x" value)) },
              { opcode := .ret }] } }]
    properties :=
      [{ name := "X", fullName := "N.T::X", propertyType := value
         getter := some "N.T::get_X()", setter := some "N.T::set_X(N.I)" }] }

/-- The getter of such a property comes too early: the second run gives the property two
dependencies where the first gave it one. -/
theorem second_extraction_adds_more :
    let start := (allocate {} { assemblies := [{ name := "a", types := [computedType] }] }).2
    let first := start.extractType {} ⟨0⟩ computedType
    let second := first.2.extractType {} ⟨0⟩ computedType
    first.1.isOk ∧ second.1.isOk ∧ first.2.catalog.hasMember ⟨3⟩ ∧
      recordedCount second.2.catalog ⟨3⟩ - recordedCount first.2.catalog ⟨3⟩ = 2 ∧
      recordedCount first.2.catalog ⟨3⟩ - recordedCount start.catalog ⟨3⟩ = 1 := by
  decide +kernel

end MemberGraph.Analysis
