import MemberGraph.Proofs.AppendOnly
import MemberGraph.Proofs.MemberNames

/-!
The full name of a type consists of a namespace, a dot and a simple name. Type arguments may hold dots
as well, so the dot is the last one in front of them. That condition leaves no choice, and every type of
a catalog is stored with the two parts it leads to.
-/

set_option autoImplicit false

namespace MemberGraph

theorem splitLast_eq_none_iff {mark : Char} {text : List Char} :
    splitLast mark text = none ↔ mark ∉ text := by
  fun_induction splitLast mark text with
  | case1 => simp
  | case2 c rest before after found ih => simp_all
  | case3 rest none ih => simp
  | case4 c rest none other ih => simp_all [eq_comm]

theorem splitLast_append (before : List Char) {mark : Char} {after : List Char}
    (last : mark ∉ after) : splitLast mark (before ++ mark :: after) = some (before, after) := by
  induction before with
  | nil => simp [splitLast, splitLast_eq_none_iff.mpr last]
  | cons c before ih => simp [splitLast, ih]

theorem splitLast_eq_some_iff {mark : Char} {text before after : List Char} :
    splitLast mark text = some (before, after) ↔ text = before ++ mark :: after ∧ mark ∉ after := by
  refine ⟨fun split => ?_, fun split => split.1 ▸ splitLast_append before split.2⟩
  induction text generalizing before with
  | nil => cases split
  | cons c rest ih =>
      rw [splitLast] at split
      cases found : splitLast mark rest with
      | some parts =>
          obtain ⟨front, back⟩ := parts
          rw [found] at split
          cases split
          obtain ⟨rest, last⟩ := ih found
          exact ⟨by rw [rest, List.cons_append], last⟩
      | none =>
          rw [found] at split
          obtain ⟨isMark, same⟩ := Option.ite_none_right_eq_some.mp split
          cases same
          exact ⟨by rw [isMark, List.nil_append], splitLast_eq_none_iff.mp found⟩

namespace FullName

/-! ## Type arguments -/

theorem beforeArguments_append {front : List Char} (plain : '<' ∉ front) (rest : List Char) :
    beforeArguments (front ++ rest) = front ++ beforeArguments rest :=
  List.takeWhile_append_of_pos (all_ne_of_not_mem plain)

def argumentPart (fullName : List Char) : List Char := fullName.dropWhile (· ≠ '<')

theorem beforeArguments_append_argumentPart (fullName : List Char) :
    beforeArguments fullName ++ argumentPart fullName = fullName :=
  List.takeWhile_append_dropWhile

theorem argumentPart_append {front : List Char} (plain : '<' ∉ front) (rest : List Char) :
    argumentPart (front ++ rest) = argumentPart rest :=
  List.dropWhile_append_of_pos (all_ne_of_not_mem plain)

private theorem beforeArguments_argumentPart (fullName : List Char) :
    beforeArguments (argumentPart fullName) = [] := by
  induction fullName with
  | nil => rfl
  | cons c rest ih =>
      by_cases opens : c = '<'
      · simp [argumentPart, beforeArguments, opens]
      · have later : argumentPart (c :: rest) = argumentPart rest := by simp [argumentPart, opens]
        rw [later, ih]

private theorem not_mem_beforeArguments (fullName : List Char) :
    '<' ∉ beforeArguments fullName := by
  intro there
  simpa using List.all_eq_true.mp List.all_takeWhile _ there

/-- Every dot of a name stands behind an opening bracket. -/
def Undotted (name : String) : Prop :=
  ∀ before after, name = before ++ "." ++ after → '<' ∈ before.toList

theorem undotted_iff {name : String} : Undotted name ↔ '.' ∉ beforeArguments name.toList := by
  constructor
  · intro undotted there
    obtain ⟨before, after, outside⟩ := List.append_of_mem there
    have whole : name.toList = before ++ '.' :: (after ++ argumentPart name.toList) := by
      rw [← List.cons_append, ← List.append_assoc, ← outside, beforeArguments_append_argumentPart]
    have behind := undotted (String.ofList before) (String.ofList (after ++ argumentPart name.toList))
      (String.toList_inj.mp (by simpa using whole))
    refine not_mem_beforeArguments name.toList ?_
    rw [outside]
    exact List.mem_append_left _ (by simpa using behind)
  · intro undotted before after whole
    by_contra absent
    refine undotted ?_
    have chars : name.toList = before.toList ++ '.' :: after.toList := by simp [whole]
    rw [chars, beforeArguments_append absent]
    simp [beforeArguments]

/-! ## Namespaces -/

/-- A full name falls into a namespace and a simple name. Either it has no dot outside its type
arguments and so no namespace, or the two meet at a dot that is the last one outside. -/
def SplitsInto (fullName space name : String) : Prop :=
  (Undotted fullName ∧ space = "" ∧ name = fullName) ∨
    (fullName = space ++ "." ++ name ∧ '<' ∉ space.toList ∧ Undotted name)

theorem spaceAndName?_eq_none_iff {fullName : String} :
    spaceAndName? fullName.toList = none ↔ Undotted fullName := by
  rw [spaceAndName?, Option.map_eq_none_iff, splitLast_eq_none_iff, undotted_iff]

theorem spaceAndName?_eq_some_iff {fullName space name : String} :
    spaceAndName? fullName.toList = some (space.toList, name.toList) ↔
      fullName = space ++ "." ++ name ∧ '<' ∉ space.toList ∧ Undotted name := by
  rw [spaceAndName?, Option.map_eq_some_iff, undotted_iff]
  constructor
  · rintro ⟨⟨before, after⟩, split, parts⟩
    -- The last dot outside the arguments has none behind it up to the bracket.
    obtain ⟨outside, last⟩ := splitLast_eq_some_iff.mp split
    obtain ⟨rfl, behind⟩ := Prod.mk.inj parts
    have behind : after ++ argumentPart fullName.toList = name.toList := behind
    have plain := not_mem_beforeArguments fullName.toList
    rw [outside, List.mem_append, List.mem_cons, not_or, not_or] at plain
    refine ⟨String.toList_inj.mp ?_, plain.1, ?_⟩
    · have whole := beforeArguments_append_argumentPart fullName.toList
      rw [outside, List.append_assoc, List.cons_append, behind] at whole
      simp [← whole]
    · rwa [← behind, beforeArguments_append plain.2.2, beforeArguments_argumentPart, List.append_nil]
  · rintro ⟨whole, plain, undotted⟩
    have dotted : '<' ∉ space.toList ++ ['.'] := by simp [plain]
    have chars : fullName.toList = (space.toList ++ ['.']) ++ name.toList := by simp [whole]
    refine ⟨(space.toList, beforeArguments name.toList), ?_, Prod.ext rfl ?_⟩
    · rw [chars, beforeArguments_append dotted, List.append_assoc, List.singleton_append]
      exact splitLast_append _ undotted
    · change beforeArguments name.toList ++ argumentPart fullName.toList = name.toList
      rw [chars, argumentPart_append dotted, beforeArguments_append_argumentPart]

theorem splitsInto_iff {fullName space name : String} :
    SplitsInto fullName space name ↔ space = namespaceOf fullName ∧ name = simpleNameOf fullName := by
  unfold namespaceOf simpleNameOf
  cases parts : spaceAndName? fullName.toList with
  | none =>
      have undotted := spaceAndName?_eq_none_iff.mp parts
      dsimp only
      refine ⟨fun splits => ?_, fun same => .inl ⟨undotted, same⟩⟩
      rcases splits with ⟨_, same⟩ | ⟨whole, plain, _⟩
      · exact same
      · exact absurd (undotted space name whole) plain
  | some pair =>
      obtain ⟨front, back⟩ := pair
      have found : spaceAndName? fullName.toList = some (space.toList, name.toList) ↔
          space = String.ofList front ∧ name = String.ofList back := by
        rw [parts, Option.some.injEq, Prod.mk.injEq, ← String.toList_inj, ← String.toList_inj,
          String.toList_ofList, String.toList_ofList, eq_comm, @eq_comm _ back]
      dsimp only
      rw [← found, spaceAndName?_eq_some_iff]
      refine ⟨fun splits => ?_, .inr⟩
      rcases splits with ⟨undotted, _⟩ | qualified
      · rw [spaceAndName?_eq_none_iff.mpr undotted] at parts
        cases parts
      · exact qualified

end FullName

/-! ## Stored names -/

structure TypeEntry.Named (entry : TypeEntry) : Prop where
  namespaceName : entry.namespaceName = FullName.namespaceOf entry.fullName
  name : entry.name = FullName.simpleNameOf entry.fullName

namespace Catalog

def TypesNamed (catalog : Catalog) : Prop :=
  ∀ id entry, catalog.type? id = some entry → entry.Named

namespace TypesNamed

variable {catalog : Catalog} (named : catalog.TypesNamed)
include named

theorem updateType {id : TypeId} {change : TypeEntry → TypeEntry}
    (kept : ∀ entry, entry.Named → (change entry).Named) :
    (catalog.updateType id change).TypesNamed := by
  intro other later found
  rw [type?_updateType] at found
  split at found
  · obtain ⟨entry, there, rfl⟩ := Option.map_eq_some_iff.mp found
    exact kept entry (named other entry there)
  · exact named other later found

theorem updateMember (id : MemberId) (change : Member → Member) :
    (catalog.updateMember id change).TypesNamed := named

theorem addType (reference : TypeReference) (kind : TypeKind) (visibility : Visibility)
    (isStub : Bool) : (catalog.addType reference kind visibility isStub).2.TypesNamed := by
  intro id entry found
  rcases (type?_addType_iff ..).mp found with ⟨_, rfl⟩ | found
  · exact ⟨rfl, rfl⟩
  · exact named id entry found

theorem defineType (reference : TypeReference) (kind : TypeKind) (visibility : Visibility) :
    (catalog.defineType reference kind visibility).2.TypesNamed := by
  unfold Catalog.defineType
  split
  · refine named.updateType fun entry entryNamed => ?_
    have persists := entry.persists_promote reference kind visibility
    constructor
    · rw [persists.namespaceName, persists.fullName, entryNamed.namespaceName]
    · rw [persists.name, persists.fullName, entryNamed.name]
  · exact named.addType reference kind visibility false

theorem addMember (key : String) (make : MemberId → Member) :
    (catalog.addMember key make).2.TypesNamed := by
  cases fresh : catalog.memberNamed? key with
  | some id => rw [addMember_of_known make fresh]; exact named
  | none =>
      intro on later found
      obtain ⟨entry, there, rfl⟩ := type?_addMember_before make fresh found
      have entryNamed := named on entry there
      exact ⟨entryNamed.namespaceName, entryNamed.name⟩

theorem addTypeDependency (dependency : TypeDependency) :
    (catalog.addTypeDependency dependency).TypesNamed := by
  have target : (catalog.updateType dependency.target fun entry =>
      { entry with backwards := entry.backwards.push dependency }).TypesNamed :=
    named.updateType fun entry entryNamed => ⟨entryNamed.namespaceName, entryNamed.name⟩
  exact target.updateType fun entry entryNamed => ⟨entryNamed.namespaceName, entryNamed.name⟩

theorem linkBacking (property field : MemberId) :
    (catalog.linkBacking property field).2.TypesNamed :=
  linkBacking_induction (fun id change _ before => before.updateMember id change) named property field

theorem linkBackwards : catalog.linkBackwards.2.TypesNamed :=
  linkBackwards_induction (fun id _ before => before.updateMember id _)
    (fun dependency before => before.addTypeDependency dependency) named

end TypesNamed

theorem Growth.typesNamed {policy : CallPolicy} {old new : Catalog}
    (growth : Growth policy old new) (named : old.TypesNamed) : new.TypesNamed := by
  cases growth with
  | stubType fresh => exact named.addType _ _ _ _
  | stubMethod wanted stub fresh returnKnown parametersKnown => exact named.addMember _ _
  | dependencies offered => exact named.updateMember _ _
  | link propertyFound fieldFound sameType => exact named.linkBacking _ _

theorem Grows.typesNamed {policy : CallPolicy} {old new : Catalog} (grows : Grows policy old new)
    (named : old.TypesNamed) : new.TypesNamed := by
  induction grows with
  | refl => exact named
  | tail _ growth before => exact growth.typesNamed before

theorem Changes.typesNamed {policy : CallPolicy} {old new : Catalog}
    (changes : Changes policy old new) (named : old.TypesNamed) : new.TypesNamed := by
  induction changes with
  | refl => exact named
  | tail _ change before =>
      cases change with
      | growth growth => exact growth.typesNamed before
      | define reference kind visibility => exact before.defineType reference kind visibility
      | insert insertable unlinked => exact before.addMember _ _
      | record known => exact before.updateMember _ _
      | recordBackwards known => exact before.updateMember _ _
      | recordBetween known => exact before.addTypeDependency _

private theorem typesNamed_empty : Catalog.empty.TypesNamed := by
  intro id entry found
  simp [Catalog.empty, type?] at found

end Catalog

open Catalog

theorem Step.Effect.typesNamed {catalog later : Catalog} {step : Step}
    (effect : step.Effect catalog later) (named : catalog.TypesNamed) : later.TypesNamed := by
  cases effect with
  | grown grows => exact grows.typesNamed named
  | defined reference kind visibility => exact named.defineType reference kind visibility
  | stubbed grows declared returnKnown parametersKnown =>
      exact (grows.typesNamed named).addMember _ _
  | inserted declared => exact named.addMember _ _
  | recorded id dependencies => exact named.updateMember _ _
  | recordedBackwards id dependency => exact named.updateMember _ _
  | recordedBetween dependency => exact named.addTypeDependency dependency
  | linked property field => exact named.linkBacking property field
  | turnedAround => exact named.linkBackwards

theorem Operation.typesNamed {old new : Catalog} (operation : Operation old new) (sound : old.Sound)
    (named : old.TypesNamed) : new.TypesNamed := by
  cases operation with
  | step step => exact (step.effect sound).typesNamed named
  | insert key make own => exact named.addMember key make

/-- The catalogs there can be: a new one, one that an analysis has got to, and whatever an operation
makes of these. -/
inductive Catalog.Attainable : Catalog → Prop where
  | new : Attainable .empty
  | analysed {options : Options} {metadata : Metadata} {catalog : Catalog}
      (stage : Analysis.BuildStage options metadata catalog) : Attainable catalog
  | changed {old new : Catalog} (attainable : Attainable old) (operation : Operation old new) :
      Attainable new

theorem Catalog.Attainable.typesNamed {catalog : Catalog} (attainable : catalog.Attainable) :
    catalog.Sound ∧ catalog.TypesNamed := by
  induction attainable with
  | new => exact ⟨wellFormed_empty.sound, typesNamed_empty⟩
  | analysed stage =>
      exact ⟨(stage.changes.wellFormed wellFormed_empty).sound,
        stage.changes.typesNamed typesNamed_empty⟩
  | changed _ operation before =>
      exact ⟨(operation.retains before.1).2, operation.typesNamed before.1 before.2⟩

/-- A full name is split in one way only, and that is how references to types and the types of a catalog
are named. -/
theorem namespaces_determined :
    (∀ (reference : TypeReference) (space name : String),
      FullName.SplitsInto reference.fullName space name ↔
        space = reference.namespaceName ∧ name = reference.name) ∧
    ∀ catalog : Catalog, catalog.Attainable → ∀ id entry, catalog.type? id = some entry →
      ∀ space name : String, FullName.SplitsInto entry.fullName space name ↔
        space = entry.namespaceName ∧ name = entry.name := by
  refine ⟨fun reference space name => FullName.splitsInto_iff,
    fun catalog attainable id entry found space name => ?_⟩
  have named := attainable.typesNamed.2 id entry found
  rw [named.namespaceName, named.name]
  exact FullName.splitsInto_iff

/-- Two dots side by side, and further dots in nested arguments. -/
theorem namespaces_determined_map :
    let analysed := (Analysis.build {} {} orderMetadata).2.catalog
    let catalog := (Step.apply analysed
      (.typeFor { fullName := "Sys..Map<Shop.Key,Sys.List<Shop.Order>>" })).2
    catalog.Attainable ∧ ∃ entry, catalog.type? ⟨4⟩ = some entry ∧
      entry.fullName = "Sys..Map<Shop.Key,Sys.List<Shop.Order>>" ∧
      FullName.SplitsInto entry.fullName "Sys." "Map<Shop.Key,Sys.List<Shop.Order>>" ∧
      ∀ space name, FullName.SplitsInto entry.fullName space name →
        space = "Sys." ∧ name = "Map<Shop.Key,Sys.List<Shop.Order>>" := by
  intro analysed catalog
  have attainable : catalog.Attainable := .changed (.analysed .finished) (.step _)
  have stored : (catalog.type? ⟨4⟩).map (fun entry =>
      (entry.fullName, entry.namespaceName, entry.name)) =
        some ("Sys..Map<Shop.Key,Sys.List<Shop.Order>>", "Sys.",
          "Map<Shop.Key,Sys.List<Shop.Order>>") := by decide +kernel
  obtain ⟨entry, found, names⟩ := Option.map_eq_some_iff.mp stored
  simp only [Prod.mk.injEq] at names
  have determined := namespaces_determined.2 catalog attainable ⟨4⟩ entry found
  rw [names.2.1, names.2.2] at determined
  exact ⟨attainable, entry, found, names.1, (determined _ _).mpr ⟨rfl, rfl⟩,
    fun space name => (determined space name).mp⟩

end MemberGraph
