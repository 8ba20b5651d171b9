import MemberGraph.Proofs.MethodOrder

/-!
The order of assemblies and of the types inside them. What a method yields goes to members of its type,
and it reads and changes no storage but that of the properties of its type. So the types may be visited
in any order, where no full name is defined twice.
-/

set_option autoImplicit false

namespace MemberGraph

open Analysis

/-! ## What belongs to a type -/

namespace Outline

def HasProperty (outline : Outline) (name : String) : Prop :=
  ∃ property ∈ outline.properties, property.fullName = name

def Owns (outline : Outline) (name : String) : Prop :=
  outline.declares name ∨ outline.HasProperty name

/-- The accessors that properties are linked to are methods of the type. -/
def OwnsAccessors (outline : Outline) : Prop :=
  ∀ property ∈ outline.properties, ∀ accessor,
    property.getter = some accessor ∨ property.setter = some accessor → outline.declares accessor

def StoredAlike (outline : Outline) (storage other : Storage) : Prop :=
  ∀ name, outline.HasProperty name → storage name = other name

variable {outline : Outline} {storage other : Storage} {method : MethodDefinition}

private theorem property?_mem {fits : PropertyOutline → Bool} {property : PropertyOutline}
    (found : outline.property? fits = some property) : property ∈ outline.properties :=
  (List.mem_filter.mp (Selection.mem_of_unique? found)).1

theorem implemented?_mem {convention : Convention} {name fullName : String}
    {property : PropertyOutline}
    (found : outline.implemented? convention name fullName = some property) :
    property ∈ outline.properties := by
  rcases Option.or_eq_some_iff.mp found with byName | ⟨_, byEnding⟩
  · obtain ⟨_, _, chosen⟩ := Option.bind_eq_some_iff.mp byName
    exact property?_mem chosen
  · obtain ⟨_, _, chosen⟩ := Option.bind_eq_some_iff.mp byEnding
    exact property?_mem chosen

theorem tied?_mem {property : PropertyOutline} (found : outline.tied? method = some property) :
    property ∈ outline.properties := by
  unfold tied? at found
  split at found
  · exact implemented?_mem found
  · cases found

/-! ### Storage -/

theorem storageAfter_cases (outline : Outline) (method : MethodDefinition) :
    (∀ storage, outline.storageAfter storage method = storage) ∨
      ∃ property body, outline.HasProperty property ∧
        ∀ storage, outline.storageAfter storage method = outline.store storage property body := by
  cases declared : outline.declares method.fullName with
  | false => exact .inl fun _ => by simp [storageAfter, declared]
  | true =>
      cases found : outline.tied? method with
      | none => exact .inl fun _ => by simp [storageAfter, storedBy, found]
      | some property =>
          cases hasBody : method.body with
          | none => exact .inl fun _ => by simp [storageAfter, storedBy, hasBody]
          | some body =>
              refine .inr ⟨property.fullName, body, ⟨property, tied?_mem found, rfl⟩, fun _ => ?_⟩
              simp [storageAfter, storedBy, declared, found, hasBody]

/-- A method changes the storage of properties of its type only. -/
theorem storageAfter_of_foreign {name : String} (foreign : ¬outline.HasProperty name)
    (storage : Storage) (method : MethodDefinition) :
    outline.storageAfter storage method name = storage name := by
  rcases outline.storageAfter_cases method with kept | ⟨property, body, owned, stored⟩
  · rw [kept]
  · rw [stored, store]
    cases outline.candidate? storage property body with
    | none => rfl
    | some field =>
        refine Function.update_of_ne ?_ ..
        rintro rfl
        exact foreign owned

section Stored

variable (alike : outline.StoredAlike storage other)
include alike

theorem candidate?_congr (property : String) (body : MethodBody) :
    outline.candidate? storage property body = outline.candidate? other property body := by
  have same : outline.mayStore storage property = outline.mayStore other property := by
    funext field
    rw [mayStore, mayStore, Bool.eq_iff_iff, List.all_eq_true, List.all_eq_true]
    refine forall₂_congr fun owner there => ?_
    rw [alike owner.fullName ⟨owner, there, rfl⟩]
  simp only [candidate?, same]

theorem store_congr {name : String} (same : storage name = other name) (property : String)
    (body : MethodBody) :
    outline.store storage property body name = outline.store other property body name := by
  unfold store
  rw [candidate?_congr alike]
  cases outline.candidate? other property body with
  | none => exact same
  | some field => simp only [Function.update_apply, same]

theorem storageAfter_congr {name : String} (same : storage name = other name)
    (method : MethodDefinition) :
    outline.storageAfter storage method name = outline.storageAfter other method name := by
  rcases outline.storageAfter_cases method with kept | ⟨property, body, _, stored⟩
  · rw [kept, kept, same]
  · rw [stored, stored, store_congr alike same]

theorem yield_congr (method : MethodDefinition) :
    outline.yield storage method = outline.yield other method := by
  have tied : ∀ body, (outline.tied? method).elim { statistics := { unlinkedAccessors := 1 } }
        (outline.tie storage method body) =
      (outline.tied? method).elim { statistics := { unlinkedAccessors := 1 } }
        (outline.tie other method body) := by
    intro body
    cases found : outline.tied? method with
    | none => rfl
    | some property =>
        have stored := alike property.fullName ⟨property, tied?_mem found, rfl⟩
        simp only [Option.elim_some, tie, inherited, store_congr alike stored]
  unfold yield given
  simp only [tied]

end Stored

/-! ### Holders -/

theorem holder_of_to {holder : String} {edges : List NamedEdge} {given : String × NamedEdge}
    (there : given ∈ EdgeLog.to holder edges) : given.1 = holder := by
  obtain ⟨_, _, rfl⟩ := List.mem_map.mp there
  rfl

private theorem attachAll_owned (calls : List (MethodReference × FieldReference)) :
    ∀ given ∈ (outline.attachAll calls).log, outline.Owns given.1 := by
  induction calls with
  | nil => simp [attachAll]
  | cons call rest ih =>
      intro given there
      rcases List.mem_append.mp there with first | later
      · unfold attach at first
        split at first
        · next property found =>
            rw [holder_of_to first]
            exact .inr ⟨property, implemented?_mem found, rfl⟩
        · cases first
      · exact ih given later

private theorem receiver_owned (owns : outline.OwnsAccessors)
    (declared : outline.declares method.fullName)
    {property : PropertyOutline} (there : property ∈ outline.properties) :
    outline.declares (property.receiver method) := by
  have shown : ∀ accessor : Option String,
      (∀ name, accessor = some name → outline.declares name) →
        outline.declares (accessor.getD method.fullName) := by
    intro accessor known
    cases accessor with
    | none => exact declared
    | some name => exact known name rfl
  unfold PropertyOutline.receiver
  split
  · exact shown _ fun name linked => owns property there name (.inl linked)
  · exact shown _ fun name linked => owns property there name (.inr linked)

private theorem given_owned (owns : outline.OwnsAccessors)
    (declared : outline.declares method.fullName) :
    ∀ given ∈ (outline.given storage method).log, outline.Owns given.1 := by
  intro given there
  unfold Outline.given at there
  split at there
  · cases there
  · split at there
    · cases found : outline.tied? method with
      | none => rw [found] at there; cases there
      | some property =>
          have listed := tied?_mem found
          rw [found] at there
          rcases List.mem_append.mp there with toAccessor | toProperty
          · rw [holder_of_to toAccessor]
            exact .inl (receiver_owned owns declared listed)
          · rw [holder_of_to toProperty]
            exact .inr ⟨property, listed, rfl⟩
    · rcases List.mem_append.mp there with attached | none
      · exact attachAll_owned _ given attached
      · cases none

/-- What a method yields goes to members of its type. -/
theorem yield_owned (owns : outline.OwnsAccessors) :
    ∀ given ∈ (outline.yield storage method).log, outline.Owns given.1 := by
  intro given there
  unfold yield at there
  split at there
  · next declared =>
      rcases List.mem_append.mp there with inBody | own
      · exact given_owned owns declared given inBody
      · rw [holder_of_to own]
        exact .inl declared
  · cases there

def Apart (outline other : Outline) : Prop := ∀ name, outline.Owns name → ¬other.Owns name

theorem Apart.symm {other : Outline} (apart : outline.Apart other) : other.Apart outline :=
  fun name owned ownedToo => apart name ownedToo owned

end Outline

/-! ## Visits of types one after the other -/

abbrev Visits := List (Outline × MethodDefinition)

def Visits.Apart (visited others : Visits) : Prop :=
  ∀ one ∈ visited, ∀ other ∈ others, one.1.Apart other.1

theorem Visits.Apart.symm {visited others : Visits} (apart : visited.Apart others) :
    others.Apart visited :=
  fun one there other thereToo => (apart other thereToo one there).symm

section Frame

variable {storage other : Storage} {visited others : Visits}

theorem runStorage_of_foreign {name : String} (foreign : ∀ one ∈ visited, ¬one.1.HasProperty name)
    (storage : Storage) : runStorage storage visited name = storage name := by
  induction visited generalizing storage with
  | nil => rfl
  | cons one rest ih =>
      have later := ih (fun one there => foreign one (List.mem_cons_of_mem _ there))
      exact (later _).trans (Outline.storageAfter_of_foreign (foreign one (by simp)) ..)

private theorem storedAlike_after (alike : ∀ one ∈ visited, one.1.StoredAlike storage other)
    {first : Outline × MethodDefinition} (listed : first ∈ visited) :
    ∀ one ∈ visited, one.1.StoredAlike (first.1.storageAfter storage first.2)
      (first.1.storageAfter other first.2) :=
  fun one there name owned =>
    Outline.storageAfter_congr (alike first listed) (alike one there name owned) first.2

theorem runYield_congr (alike : ∀ one ∈ visited, one.1.StoredAlike storage other) :
    runYield storage visited = runYield other visited := by
  induction visited generalizing storage other with
  | nil => rfl
  | cons one rest ih =>
      have later := storedAlike_after alike (List.mem_cons_self ..)
      rw [runYield, runYield, Outline.yield_congr (alike one (by simp)),
        ih fun other there => later other (List.mem_cons_of_mem _ there)]

theorem runStorage_congr (alike : ∀ one ∈ visited, one.1.StoredAlike storage other) {name : String}
    (same : storage name = other name) :
    runStorage storage visited name = runStorage other visited name := by
  induction visited generalizing storage other with
  | nil => exact same
  | cons one rest ih =>
      have later := storedAlike_after alike (List.mem_cons_self ..)
      exact ih (fun other there => later other (List.mem_cons_of_mem _ there))
        (Outline.storageAfter_congr (alike one (by simp)) same one.2)

theorem runYield_owned (owns : ∀ one ∈ visited, one.1.OwnsAccessors) :
    ∀ given ∈ (runYield storage visited).log, ∃ one ∈ visited, one.1.Owns given.1 := by
  induction visited generalizing storage with
  | nil => intro given there; cases there
  | cons one rest ih =>
      intro given there
      rcases List.mem_append.mp there with first | later
      · exact ⟨one, by simp, Outline.yield_owned (owns one (by simp)) given first⟩
      · obtain ⟨another, listed, owned⟩ :=
          ih (fun one there => owns one (List.mem_cons_of_mem _ there)) given later
        exact ⟨another, List.mem_cons_of_mem _ listed, owned⟩

private theorem Visits.Apart.storedAlike (apart : Visits.Apart visited others) (storage : Storage) :
    ∀ another ∈ others, another.1.StoredAlike (runStorage storage visited) storage :=
  fun another thereToo name owned => runStorage_of_foreign (fun one there ownedToo =>
    apart one there another thereToo name (.inr ownedToo) (.inr owned)) storage

/-- Types that are apart may be visited as if the others were not there. -/
theorem runYield_apart (apart : Visits.Apart visited others) (storage : Storage) :
    runYield (runStorage storage visited) others = runYield storage others :=
  runYield_congr (apart.storedAlike storage)

private theorem runStorage_swap (apart : Visits.Apart visited others) (storage : Storage) :
    runStorage storage (visited ++ others) = runStorage storage (others ++ visited) := by
  -- Where the first types have no property of the name, they neither change what is stored there nor
  -- what the others store there.
  have past : ∀ {first second : Visits} {name : String}, first.Apart second →
      (∀ one ∈ first, ¬one.1.HasProperty name) →
      runStorage storage (first ++ second) name = runStorage storage (second ++ first) name := by
    intro first second name apart foreign
    rw [runStorage_append, runStorage_append, runStorage_of_foreign foreign]
    exact runStorage_congr (apart.storedAlike storage) (runStorage_of_foreign foreign storage)
  funext name
  by_cases foreign : ∀ one ∈ visited, ¬one.1.HasProperty name
  · exact past apart foreign
  · obtain ⟨one, there, owned⟩ : ∃ one ∈ visited, one.1.HasProperty name := by
      simpa using foreign
    exact (past apart.symm fun another thereToo ownedToo =>
      apart one there another thereToo name (.inr owned) (.inr ownedToo)).symm

end Frame

structure Yield.Same (one other : Yield) : Prop where
  edges : ∀ holder, one.log.edgesOf holder = other.log.edgesOf holder
  statistics : one.statistics = other.statistics

namespace Yield.Same

variable {first second third one other : Yield}

theorem refl (yield : Yield) : Same yield yield := ⟨fun _ => rfl, rfl⟩

theorem trans (before : Same first second) (after : Same second third) : Same first third :=
  ⟨fun holder => (before.edges holder).trans (after.edges holder),
    before.statistics.trans after.statistics⟩

theorem append (left : Same first second) (right : Same one other) :
    Same (first.append one) (second.append other) where
  edges holder := by
    simp only [Yield.append, EdgeLog.edgesOf_append, left.edges, right.edges]
  statistics := by simp only [Yield.append, left.statistics, right.statistics]

theorem append_comm (disjoint : ∀ given ∈ first.log, ∀ another ∈ second.log, given.1 ≠ another.1) :
    Same (first.append second) (second.append first) where
  edges holder := by
    simp only [Yield.append, EdgeLog.edgesOf_append]
    by_cases missing : ∀ given ∈ first.log, given.1 ≠ holder
    · have none : first.log.edgesOf holder = [] := by simpa [EdgeLog.edgesOf] using missing
      rw [none, List.nil_append, List.append_nil]
    · obtain ⟨given, there, rfl⟩ : ∃ given ∈ first.log, given.1 = holder := by simpa using missing
      have none : second.log.edgesOf given.1 = [] := by
        simpa [EdgeLog.edgesOf] using fun another thereToo => (disjoint given there another thereToo).symm
      rw [none, List.nil_append, List.append_nil]
  statistics := Statistics.merge_comm ..

end Yield.Same

/-- Types that are apart may be visited in any order. -/
theorem run_perm {blocks others : List Visits} (perm : blocks.Perm others)
    (apart : blocks.Pairwise Visits.Apart)
    (owns : ∀ block ∈ blocks, ∀ one ∈ block, one.1.OwnsAccessors) (storage : Storage) :
    (runYield storage blocks.flatten).Same (runYield storage others.flatten) ∧
      runStorage storage blocks.flatten = runStorage storage others.flatten := by
  induction perm generalizing storage with
  | nil => exact ⟨.refl _, rfl⟩
  | cons block _ ih =>
      obtain ⟨yields, stores⟩ := ih (List.pairwise_cons.mp apart).2
        (fun other there => owns other (List.mem_cons_of_mem _ there)) (runStorage storage block)
      simp only [List.flatten_cons, runYield_append, runStorage_append]
      exact ⟨(Yield.Same.refl _).append yields, stores⟩
  | swap second first rest =>
      have between : Visits.Apart first second := (List.pairwise_cons.mp apart).1 second (by simp)
      have swapped := runStorage_swap between storage
      simp only [List.flatten_cons, ← List.append_assoc]
      rw [runYield_append _ (first ++ second), runYield_append _ (second ++ first),
        runStorage_append _ (first ++ second), runStorage_append _ (second ++ first), swapped]
      refine ⟨.append ?_ (.refl _), rfl⟩
      -- Neither block reads what the other stores, and no member gets edges from both.
      rw [runYield_append, runYield_append, runYield_apart between, runYield_apart between.symm]
      refine .append_comm fun given there another thereToo same => ?_
      obtain ⟨one, listed, owned⟩ := runYield_owned (owns first (by simp)) given there
      obtain ⟨other, listedToo, ownedToo⟩ :=
        runYield_owned (owns second (by simp)) another thereToo
      exact between one listed other listedToo given.1 owned (same ▸ ownedToo)
  | trans before _ ih ihToo =>
      obtain ⟨yields, stores⟩ := ih apart owns storage
      obtain ⟨yieldsToo, storesToo⟩ := ihToo (before.pairwise apart Visits.Apart.symm)
        (fun block there => owns block (before.mem_iff.mpr there)) storage
      exact ⟨yields.trans yieldsToo, stores.trans storesToo⟩

/-! ## Distinct names -/

section Distinct

variable {α : Type} {name : α → String} {values others : List α}

private theorem filter_eq_of_perm (perm : values.Perm others) (distinct : (values.map name).Nodup)
    (wanted : String) :
    values.filter (name · = wanted) = others.filter (name · = wanted) := by
  induction perm with
  | nil => rfl
  | cons value _ ih =>
      rw [List.filter_cons, List.filter_cons, ih (List.nodup_cons.mp distinct).2]
  | swap second first rest =>
      have differ : name first ≠ name second := by
        have fresh := (List.nodup_cons.mp distinct).1
        exact fun same => fresh (by simp [same])
      by_cases isFirst : name first = wanted
      · have notSecond : name second ≠ wanted := fun same => differ (isFirst.trans same.symm)
        simp [isFirst, notSecond]
      · simp [List.filter_cons, isFirst]
  | trans before _ ih ihToo =>
      exact (ih distinct).trans (ihToo ((before.map name).nodup_iff.mp distinct))

private theorem find?_eq_of_perm (perm : values.Perm others) (distinct : (values.map name).Nodup)
    (wanted : String) :
    values.find? (name · = wanted) = others.find? (name · = wanted) := by
  rw [← List.head?_filter, ← List.head?_filter, filter_eq_of_perm perm distinct]

end Distinct

namespace Metadata

/-- No full name of a type and none of a member is defined twice. -/
structure Distinct (metadata : Metadata) : Prop where
  types : (metadata.definitions.map (·.fullName)).Nodup
  members : ((metadata.definitions.flatMap (·.memberDefinitions)).map (·.fullName)).Nodup

namespace Distinct

variable {metadata : Metadata} (distinct : metadata.Distinct)
include distinct

theorem firstOf_definitions :
    firstOf (·.fullName) metadata.definitions = metadata.definitions :=
  firstOf_of_nodup distinct.types

theorem memberDefinitions : metadata.memberDefinitions =
    metadata.definitions.flatMap fun definition =>
      definition.memberDefinitions.map fun member => (definition.fullName, member) := by
  rw [Metadata.memberDefinitions, distinct.firstOf_definitions]

theorem memberNames : (metadata.memberDefinitions.map (·.2.fullName)).Nodup := by
  have listed := distinct.members
  rw [List.map_flatMap] at listed
  rw [distinct.memberDefinitions, List.map_flatMap]
  simpa only [List.map_map, Function.comp_def] using listed

theorem firstMembers : metadata.firstMembers = metadata.memberDefinitions :=
  firstOf_of_nodup distinct.memberNames

private theorem filter_memberDefinitions (typeName : String) :
    metadata.memberDefinitions.filter (·.1 = typeName) =
      (metadata.definitions.filter (·.fullName = typeName)).flatMap fun definition =>
        definition.memberDefinitions.map fun member => (definition.fullName, member) := by
  rw [distinct.memberDefinitions, List.filter_flatMap, flatMap_filter]
  refine List.flatMap_congr fun definition _ => ?_
  by_cases named : definition.fullName = typeName
  · simp [named, List.filter_map, Function.comp_def]
  · simp [named, List.filter_map, Function.comp_def]

theorem perm {other : Metadata} (perm : metadata.definitions.Perm other.definitions) :
    other.Distinct where
  types := (perm.map _).nodup_iff.mp distinct.types
  members := ((perm.flatMap_right _).map _).nodup_iff.mp distinct.members

end Distinct

/-! ## Outlines of types -/

section Outlines

variable (metadata : Metadata) (policy : CallPolicy)

private theorem outline_property {typeName : String} {property : PropertyOutline}
    (there : property ∈ (metadata.outline policy typeName).properties) :
    ∃ definition : PropertyDefinition,
      MemberDefinition.property definition ∈ metadata.firstMembersOf typeName ∧
        property.fullName = definition.fullName ∧
        property.getter = definition.getter.filter (metadata.declaresMethod typeName) ∧
        property.setter = definition.setter.filter (metadata.declaresMethod typeName) := by
  obtain ⟨definition, listed, shown⟩ := List.mem_filterMap.mp there
  cases definition with
  | property definition =>
      cases shown
      exact ⟨definition, listed, rfl, rfl, rfl⟩
  | field => cases shown
  | method => cases shown

theorem outline_ownsAccessors (typeName : String) :
    (metadata.outline policy typeName).OwnsAccessors := by
  intro property there accessor linked
  obtain ⟨definition, _, _, getter, setter⟩ := metadata.outline_property policy there
  rw [getter, setter, Option.filter_eq_some_iff, Option.filter_eq_some_iff] at linked
  rcases linked with ⟨_, declared⟩ | ⟨_, declared⟩
  · exact declared
  · exact declared

theorem outline_owner {typeName name : String}
    (owned : (metadata.outline policy typeName).Owns name) :
    (metadata.memberDefinitions.find? (·.2.fullName = name)).map (·.1) = some typeName := by
  rcases owned with declared | ⟨property, there, rfl⟩
  · replace declared : metadata.declaresMethod typeName name := declared
    unfold declaresMethod declaresAmong at declared
    cases first : metadata.memberDefinitions.find? (·.2.fullName = name) with
    | none => rw [first] at declared; cases declared
    | some given =>
        rw [first, Option.any_some, Bool.and_eq_true] at declared
        rw [Option.map_some, of_decide_eq_true declared.2]
  · obtain ⟨definition, listed, fullName, _⟩ := metadata.outline_property policy there
    have first := find?_of_mem_firstMembersOf listed
    rw [fullName]
    exact congrArg (Option.map (·.1)) first

private theorem outline_apart {typeName otherName : String} (differ : typeName ≠ otherName) :
    (metadata.outline policy typeName).Apart (metadata.outline policy otherName) := by
  intro name owned ownedToo
  have owner := metadata.outline_owner policy owned
  rw [metadata.outline_owner policy ownedToo] at owner
  exact differ (Option.some.inj owner).symm

end Outlines

/-! ## Metadata with types in another order -/

/-- The same assemblies in another order, each with the same types in another order. -/
def Rearranged (metadata other : Metadata) : Prop :=
  ∃ middle : List Assembly,
    List.Forall₂ (fun assembly rearranged =>
      assembly.name = rearranged.name ∧ assembly.types.Perm rearranged.types)
      metadata.assemblies middle ∧ middle.Perm other.assemblies

namespace Rearranged

variable {metadata other : Metadata} (rearranged : metadata.Rearranged other)
include rearranged

theorem definitions : metadata.definitions.Perm other.definitions := by
  obtain ⟨middle, inside, outside⟩ := rearranged
  unfold Metadata.definitions
  refine .trans ?_ (outside.flatMap_right _)
  clear outside
  generalize metadata.assemblies = assemblies at inside
  induction inside with
  | nil => exact .refl _
  | cons first _ ih =>
      rw [List.flatMap_cons, List.flatMap_cons]
      exact first.2.append ih

theorem defines : metadata.defines = other.defines := by
  funext name
  exact rearranged.definitions.any_eq

variable (distinct : metadata.Distinct)
include distinct

theorem memberDefinitions : metadata.memberDefinitions.Perm other.memberDefinitions := by
  have distinctToo := distinct.perm rearranged.definitions
  rw [distinct.memberDefinitions, distinctToo.memberDefinitions]
  exact rearranged.definitions.flatMap_right _

theorem membersAlike : MembersAlike metadata.memberDefinitions other.memberDefinitions where
  first name := by
    rw [find?_eq_of_perm (rearranged.memberDefinitions distinct) distinct.memberNames]
  order typeName := by
    have distinctToo := distinct.perm rearranged.definitions
    have ofType := filter_eq_of_perm rearranged.definitions distinct.types typeName
    unfold othersOf
    rw [firstOf_of_nodup distinct.memberNames, firstOf_of_nodup distinctToo.memberNames]
    simp only [← List.filter_filter]
    rw [distinct.filter_memberDefinitions, distinctToo.filter_memberDefinitions, ofType]

theorem outline (policy : CallPolicy) : metadata.outline policy = other.outline policy :=
  funext (outline_alike (rearranged.membersAlike distinct) rearranged.defines policy)

theorem visits (policy : CallPolicy) : (metadata.visits policy).Perm (other.visits policy) := by
  have distinctToo := distinct.perm rearranged.definitions
  unfold Metadata.visits
  rw [distinct.firstOf_definitions, distinctToo.firstOf_definitions, rearranged.outline distinct]
  exact rearranged.definitions.flatMap_right _

private theorem run_same (policy : CallPolicy) :
    (metadata.run policy).Same (other.run policy) ∧ metadata.storage policy = other.storage policy := by
  have distinctToo := distinct.perm rearranged.definitions
  unfold run storage Metadata.visits
  rw [distinct.firstOf_definitions, distinctToo.firstOf_definitions, ← rearranged.outline distinct]
  refine run_perm (rearranged.definitions.map _) (List.pairwise_map.mpr ?_) ?_ _
  · refine (List.pairwise_map.mp distinct.types).imp fun differ one there another thereToo => ?_
    obtain ⟨_, _, rfl⟩ := List.mem_map.mp there
    obtain ⟨_, _, rfl⟩ := List.mem_map.mp thereToo
    exact metadata.outline_apart policy differ
  · intro block there one listed
    obtain ⟨definition, _, rfl⟩ := List.mem_map.mp there
    obtain ⟨_, _, rfl⟩ := List.mem_map.mp listed
    exact metadata.outline_ownsAccessors policy _

end Rearranged

end Metadata

structure NamedMember.SameUpToCallers (one other : NamedMember) : Prop
    extends NamedMember.LinkedAlike one other where
  dependencies : one.dependencies = other.dependencies
  backwards : one.backwards.Perm other.backwards

private theorem Metadata.Rearranged.sameUpToCallers {metadata other : Metadata}
    (rearranged : metadata.Rearranged other) (distinct : metadata.Distinct) (options : Options)
    (name : String) (backedProperty : Option String) :
    (metadata.namedMember options name backedProperty).SameUpToCallers
      (other.namedMember options name backedProperty) := by
  have alike := rearranged.membersAlike distinct
  obtain ⟨yields, stores⟩ := rearranged.run_same distinct options.callPolicy
  have property := propertyOf?_alike alike name
  have edges : metadata.edgesOf options.callPolicy = other.edgesOf options.callPolicy := by
    funext holder
    rw [edgesOf, edgesOf, initialEdges_alike alike, yields.edges]
  refine ⟨⟨?_, ?_, congrFun stores name, rfl⟩, congrFun edges name, ?_⟩
  · simp only [namedMember, property]
  · simp only [namedMember, property]
  · have members : metadata.firstMembers.Perm other.firstMembers := by
      rw [distinct.firstMembers, (distinct.perm rearranged.definitions).firstMembers]
      exact rearranged.memberDefinitions distinct
    simp only [namedMember, callsOf, ← edges]
    split
    · exact (members.flatMap_right _).filter _
    · exact .refl _

/-- The order of assemblies and of types makes no difference where no full name is defined twice: an
analysis succeeds for the same metadata, counts the same, and gives the same members, up to the order
of the calls of each. -/
theorem build_rearranged {metadata other : Metadata} (distinct : metadata.Distinct)
    (rearranged : metadata.Rearranged other) (options : Options) :
    let result := (Architecture.build options metadata).1
    let otherResult := (Architecture.build options other).1
    (result.isOk ↔ otherResult.isOk) ∧
      ∀ one another, result = .ok one → otherResult = .ok another →
        one.MembersAgree NamedMember.SameUpToCallers another ∧
          one.statistics = another.statistics := by
  have members := rearranged.memberDefinitions distinct
  obtain ⟨yields, stores⟩ := rearranged.run_same distinct options.callPolicy
  refine ⟨?_, fun one another built builtToo => ⟨?_, ?_⟩⟩
  · simp only [build_isOk_iff_visits, (rearranged.visits distinct options.callPolicy).mem_iff]
  · refine membersAgree_of_metadata built builtToo (fun name => ?_) stores
      (rearranged.sameUpToCallers distinct options)
    rw [find?_eq_of_perm members distinct.memberNames]
  · rw [built_statistics built, built_statistics builtToo]
    exact yields.statistics

def Metadata.reversed (metadata : Metadata) : Metadata where
  assemblies := (metadata.assemblies.map fun assembly =>
    { assembly with types := assembly.types.reverse }).reverse

private theorem Metadata.reversed_rearranged (metadata : Metadata) :
    metadata.Rearranged metadata.reversed := by
  refine ⟨_, ?_, (List.reverse_perm _).symm⟩
  exact List.forall₂_map_right_iff.mpr
    (List.forall₂_same.mpr fun assembly _ => ⟨rfl, (List.reverse_perm _).symm⟩)

/-- Metadata where two types store properties in fields, and a third calls a method of the first. -/
def deskMetadata : Metadata :=
  let money : TypeReference := { fullName := "Shop.Money" }
  let fetch := MethodReference.ofSignature { fullName := "Shop.Account" } "Fetch" money []
  let ask : MethodDefinition :=
    { MethodDefinition.ofSignature { fullName := "Shop.Desk" } "Ask" money [] with
      body := some { instructions := [{ opcode := .call, operand := some (.method fetch) }] } }
  { assemblies :=
      [{ name := "shop", types := accountMetadata.definitions ++ orderMetadata.definitions },
        { name := "desk", types := [{ fullName := "Shop.Desk", methods := [ask] }] }] }

theorem build_rearranged_desk :
    ∃ one another, (Architecture.build {} deskMetadata).1 = .ok one ∧
      (Architecture.build {} deskMetadata.reversed).1 = .ok another ∧
      deskMetadata.Distinct ∧ deskMetadata.Rearranged deskMetadata.reversed ∧
      (one.catalog.member? ⟨0⟩).map (·.fullName) = some "Shop.Account::_balance" ∧
      (another.catalog.member? ⟨0⟩).map (·.fullName) = some "Shop.Desk::Ask()" ∧
      one.MembersAgree NamedMember.SameUpToCallers another ∧
      one.statistics = another.statistics := by
  have distinct : deskMetadata.Distinct := ⟨by decide +kernel, by decide +kernel⟩
  have rearranged := deskMetadata.reversed_rearranged
  obtain ⟨one, built, first⟩ := @build_passes {} deskMetadata
    (fun one => (one.catalog.member? ⟨0⟩).map (·.fullName) = some "Shop.Account::_balance")
    (by decide +kernel)
  obtain ⟨another, builtToo, second⟩ := @build_passes {} deskMetadata.reversed
    (fun one => (one.catalog.member? ⟨0⟩).map (·.fullName) = some "Shop.Desk::Ask()")
    (by decide +kernel)
  obtain ⟨agree, counts⟩ := (build_rearranged distinct rearranged {}).2 one another built builtToo
  exact ⟨one, another, built, builtToo, distinct, rearranged, of_decide_eq_true first,
    of_decide_eq_true second, agree, counts⟩

end MemberGraph
