import MemberGraph.Proofs.AppendOnly
import MemberGraph.Proofs.FaithfulJournal
import Mathlib.Data.List.Infix

/-!
Full names tell definitions apart. The name of a method joins the names of its parameter types with
commas, and a type's name may hold commas itself, between the brackets of its arguments. So the names
are read back from the left: each ends where a comma stands outside all brackets.
-/

set_option autoImplicit false

namespace MemberGraph

namespace FullName

/-! ## Names of parameter types -/

/-- Angle brackets are never closed before they are opened, and all are closed at the end. -/
def Balanced (name : List Char) : Prop :=
  (∀ front ∈ name.inits, front.count '>' ≤ front.count '<') ∧ name.count '<' = name.count '>'
deriving Decidable

/-- A name that can stand in a parameter list: commas occur only inside of angle brackets. -/
def Listable (name : String) : Prop :=
  name ≠ "" ∧ Balanced name.toList ∧
    ∀ front ∈ name.toList.inits, front ++ [','] <+: name.toList → front.count '>' < front.count '<'
deriving Decidable

def afterFirst : List String → List Char
  | [] => []
  | name :: rest => ',' :: (commaSeparated (name :: rest)).toList

theorem toList_commaSeparated (name : String) (rest : List String) :
    (commaSeparated (name :: rest)).toList = name.toList ++ afterFirst rest := by
  cases rest with
  | nil => simp [commaSeparated, afterFirst]
  | cons next others => simp [commaSeparated, afterFirst]

theorem afterFirst_cases (names : List String) :
    afterFirst names = [] ∨ ∃ rest, afterFirst names = ',' :: rest := by
  cases names with
  | nil => exact .inl rfl
  | cons name rest => exact .inr ⟨_, rfl⟩

/-- Where a comma follows a name all its brackets are closed, so no longer name starts like that. -/
theorem Listable.not_continued {name longer : String} {between rest : List Char}
    {names : List String} (listed : Listable name) (listedToo : Listable longer)
    (whole : longer.toList = name.toList ++ between) (follows : afterFirst names = between ++ rest) :
    between = [] := by
  cases between with
  | nil => rfl
  | cons c between =>
      rcases afterFirst_cases names with ended | ⟨further, comma⟩
      · simp [ended] at follows
      · rw [comma] at follows
        obtain ⟨rfl, _⟩ := List.cons.inj follows
        have starts : name.toList ++ [','] <+: longer.toList := ⟨between, by simp [whole]⟩
        have here := (List.prefix_append ..).trans starts
        have inside := listedToo.2.2 name.toList ((List.mem_inits _ _).mpr here) starts
        have closed := listed.2.1.2
        omega

theorem Listable.first_inj {name other : String} {names others : List String}
    (listed : Listable name) (listedToo : Listable other)
    (same : name.toList ++ afterFirst names = other.toList ++ afterFirst others) :
    name = other ∧ afterFirst names = afterFirst others := by
  have sameName : name.toList = other.toList := by
    rcases List.append_eq_append_iff.mp same with ⟨between, whole, rest⟩ | ⟨between, whole, rest⟩
    · rw [whole, listed.not_continued listedToo whole rest, List.append_nil]
    · rw [whole, listedToo.not_continued listed whole rest, List.append_nil]
  rw [sameName] at same
  exact ⟨String.toList_inj.mp sameName, List.append_cancel_left same⟩

private theorem commaSeparated_ne_empty {name : String} (listed : Listable name)
    (rest : List String) :
    commaSeparated (name :: rest) ≠ "" := by
  intro empty
  have chars := congrArg String.toList empty
  rw [toList_commaSeparated] at chars
  have none := (List.append_eq_nil_iff.mp chars).1
  exact listed.1 (String.toList_inj.mp none)

theorem commaSeparated_inj {names others : List String} (listed : ∀ name ∈ names, Listable name)
    (listedToo : ∀ name ∈ others, Listable name)
    (same : commaSeparated names = commaSeparated others) : names = others := by
  induction names generalizing others with
  | nil =>
      cases others with
      | nil => rfl
      | cons other rest =>
          exact absurd same.symm (commaSeparated_ne_empty (listedToo other (by simp)) rest)
  | cons name names ih =>
      cases others with
      | nil => exact absurd same (commaSeparated_ne_empty (listed name (by simp)) names)
      | cons other others =>
          have chars := congrArg String.toList same
          rw [toList_commaSeparated, toList_commaSeparated] at chars
          obtain ⟨rfl, rest⟩ :=
            (listed name (by simp)).first_inj (listedToo other (by simp)) chars
          rw [List.forall_mem_cons] at listed listedToo
          cases names with
          | nil =>
              cases others with
              | nil => rfl
              | cons => cases rest
          | cons next names =>
              cases others with
              | nil => cases rest
              | cons nextOther others =>
                  have further := ih listed.2 listedToo.2 (String.toList_inj.mp (List.cons.inj rest).2)
                  rw [further]

/-! ## Full names of members -/

theorem append_cons_inj {mark : Char} {first second before after : List Char}
    (absent : mark ∉ first) (absentToo : mark ∉ second)
    (same : first ++ mark :: before = second ++ mark :: after) : first = second ∧ before = after := by
  induction first generalizing second with
  | nil =>
      cases second with
      | nil => exact ⟨rfl, (List.cons.inj same).2⟩
      | cons c second => exact absurd (List.mem_cons.mpr (.inl (List.cons.inj same).1)) absentToo
  | cons c first ih =>
      cases second with
      | nil => exact absurd (List.mem_cons.mpr (.inl (List.cons.inj same).1.symm)) absent
      | cons d second =>
          obtain ⟨rfl, rest⟩ := List.cons.inj same
          obtain ⟨rfl, behind⟩ := ih (fun there => absent (List.mem_cons_of_mem _ there))
            (fun there => absentToo (List.mem_cons_of_mem _ there)) rest
          exact ⟨rfl, behind⟩

end FullName

open FullName

/-- What tells a member apart: its type, its name and, if it is a method, its parameter types. -/
structure Signature where
  typeName : String
  name : String
  parameters : Option (List String)
deriving DecidableEq, Repr

namespace Signature

def fullName (signature : Signature) : String :=
  match signature.parameters with
  | some parameters => ofMethod signature.typeName signature.name parameters
  | none => ofMember signature.typeName signature.name

def memberPart (signature : Signature) : List Char :=
  signature.name.toList ++ (signature.parameters.elim [] fun parameters =>
    '(' :: ((commaSeparated parameters).toList ++ [')']))

/-- The signature follows the conventions: the marks of a full name stand where they should. -/
structure Conventional (signature : Signature) : Prop where
  typeName : ':' ∉ signature.typeName.toList
  name : '(' ∉ signature.name.toList
  parameters : ∀ parameters ∈ signature.parameters, ∀ parameter ∈ parameters, Listable parameter

private theorem toList_fullName (signature : Signature) :
    signature.fullName.toList = signature.typeName.toList ++ ':' :: ':' :: signature.memberPart := by
  obtain ⟨typeName, name, parameters⟩ := signature
  cases parameters <;> simp [fullName, memberPart, ofMethod, ofMember]

theorem Conventional.memberPart_inj {first second : Signature} (conventional : first.Conventional)
    (conventionalToo : second.Conventional) (same : first.memberPart = second.memberPart) :
    first.name = second.name ∧ first.parameters = second.parameters := by
  obtain ⟨firstType, firstName, firstParameters⟩ := first
  obtain ⟨secondType, secondName, secondParameters⟩ := second
  have unopened := conventional.name
  have unopenedToo := conventionalToo.name
  unfold memberPart at same
  dsimp only at *
  cases firstParameters with
  | none =>
      cases secondParameters with
      | none => exact ⟨String.toList_inj.mp (by simpa using same), rfl⟩
      | some parameters =>
          rw [Option.elim_none, List.append_nil] at same
          rw [same] at unopened
          simp at unopened
  | some parameters =>
      cases secondParameters with
      | none =>
          rw [Option.elim_none, List.append_nil] at same
          rw [← same] at unopenedToo
          simp at unopenedToo
      | some others =>
          obtain ⟨sameName, sameRest⟩ := append_cons_inj unopened unopenedToo same
          have sameList := commaSeparated_inj (conventional.parameters _ rfl)
            (conventionalToo.parameters _ rfl)
            (String.toList_inj.mp (List.append_cancel_right sameRest))
          exact ⟨String.toList_inj.mp sameName, by rw [sameList]⟩

theorem Conventional.fullName_inj {first second : Signature} (conventional : first.Conventional)
    (conventionalToo : second.Conventional) : first.fullName = second.fullName ↔ first = second := by
  refine ⟨fun same => ?_, fun same => by rw [same]⟩
  have chars := congrArg String.toList same
  rw [toList_fullName, toList_fullName] at chars
  obtain ⟨sameType, rest⟩ :=
    append_cons_inj conventional.typeName conventionalToo.typeName chars
  obtain ⟨sameName, sameParameters⟩ :=
    conventional.memberPart_inj conventionalToo (List.cons.inj rest).2
  obtain ⟨typeName, name, parameters⟩ := first
  obtain ⟨otherType, otherName, otherParameters⟩ := second
  cases String.toList_inj.mp sameType
  cases sameName
  cases sameParameters
  rfl

end Signature

/-! ## Definitions in a catalog -/

/-- What tells a definition apart, on a type of the given name. A field and a property of one name are
not told apart. -/
def MemberDefinition.signature (typeName : String) : MemberDefinition → Signature
  | .field definition => ⟨typeName, definition.name, none⟩
  | .method definition => ⟨typeName, definition.name, some (definition.parameters.map (·.fullName))⟩
  | .property definition => ⟨typeName, definition.name, none⟩

structure MemberDefinition.FollowsNaming (typeName : String) (definition : MemberDefinition) :
    Prop where
  conventional : (definition.signature typeName).Conventional
  fullName : definition.fullName = (definition.signature typeName).fullName

theorem MemberDefinition.FollowsNaming.fullName_inj {typeName otherType : String}
    {definition other : MemberDefinition} (follows : definition.FollowsNaming typeName)
    (followsToo : other.FollowsNaming otherType) :
    definition.fullName = other.fullName ↔
      definition.signature typeName = other.signature otherType := by
  rw [follows.fullName, followsToo.fullName]
  exact follows.conventional.fullName_inj followsToo.conventional

namespace Analysis

open Catalog

theorem allocated_extends_build (options : Options) (metadata : Metadata) :
    (allocate {} metadata).2.catalog.Extends (Analysis.build {} options metadata).2.catalog := by
  have extracted := (extracted_grows metadata options).extends
  rw [← extractAll_catalog] at extracted
  unfold Analysis.build
  dsimp only
  generalize (allocate {} metadata).2.extractAll options (allocate {} metadata).1 = outcome
    at extracted ⊢
  rcases outcome with ⟨error | statistics, later⟩
  · exact extracted
  · dsimp only [turnAround]
    split
    · exact extracted.trans extends_linkBackwards
    · exact extracted

theorem build_memberNamed? (options : Options) {metadata : Metadata}
    {given : String × MemberDefinition} (there : given ∈ metadata.memberDefinitions) :
    ∃ id, (Analysis.build {} options metadata).2.catalog.memberNamed? given.2.fullName = some id := by
  have entered := (allocated_membersInOrder metadata).memberNamed? (allocated_wellFormed metadata)
    given.2.fullName
  have listed : metadata.memberDefinitions.any (·.2.fullName = given.2.fullName) :=
    List.any_eq_true.mpr ⟨given, there, by simp⟩
  rw [listed, Option.isSome_iff_exists] at entered
  obtain ⟨id, named⟩ := entered
  exact ⟨id, (allocated_extends_build options metadata).memberNamed? named⟩

theorem build_apart (options : Options) {metadata : Metadata}
    {first second : String × MemberDefinition} (given : first ∈ metadata.memberDefinitions)
    (givenToo : second ∈ metadata.memberDefinitions) (follows : first.2.FollowsNaming first.1)
    (followsToo : second.2.FollowsNaming second.1) :
    let catalog := (Analysis.build {} options metadata).2.catalog
    ∃ id other, catalog.memberNamed? first.2.fullName = some id ∧
      catalog.memberNamed? second.2.fullName = some other ∧
      (id = other ↔ first.2.signature first.1 = second.2.signature second.1) := by
  intro catalog
  obtain ⟨id, named⟩ := build_memberNamed? options given
  obtain ⟨other, otherNamed⟩ := build_memberNamed? options givenToo
  have formed : catalog.WellFormed := (build_changes options metadata).wellFormed wellFormed_empty
  refine ⟨id, other, named, otherNamed, ?_⟩
  rw [← follows.fullName_inj followsToo]
  constructor
  · rintro rfl
    obtain ⟨member, found, fullName⟩ := formed.memberNamed?_iff.mp named
    obtain ⟨same, foundToo, otherName⟩ := formed.memberNamed?_iff.mp otherNamed
    cases found.symm.trans foundToo
    exact fullName.symm.trans otherName
  · intro same
    rw [same] at named
    exact Option.some.inj (named.symm.trans otherNamed)

theorem build_duplicates (options : Options) {metadata : Metadata}
    (follow : ∀ given ∈ metadata.memberDefinitions, given.2.FollowsNaming given.1) :
    (Architecture.build options metadata).2.saying "Duplicate member definition ignored" =
      ((withEarlier metadata.memberDefinitions).filter fun given =>
        given.1.any fun earlier =>
          earlier.2.signature earlier.1 = given.2.2.signature given.2.1).map fun given =>
        .duplicateMember given.2.2.fullName := by
  have warned := (build_faithful options metadata).members
  rw [show (Architecture.build options metadata).2.saying _ = _ from warned, repeatedNames,
    List.map_map]
  refine congrArg _ (List.filter_congr fun given there => ?_)
  obtain ⟨earlierListed, listed⟩ := mem_withEarlier there
  rw [isRepeated, Bool.eq_iff_iff, List.any_eq_true, List.any_eq_true]
  refine exists_congr fun earlier => and_congr_right fun before => ?_
  rw [decide_eq_true_iff, decide_eq_true_iff]
  exact (follow earlier (earlierListed before)).fullName_inj (follow given.2 listed)

end Analysis

open Analysis

/-- The full name of a method is read back in one way, and is that of no field or property. So an
analysis gives two definitions that follow the conventions one member only if they have the same type,
name and parameter types, and leaves out no others. -/
theorem overloads_apart :
    (∀ (type otherType name otherName : String) (parameters others : List String),
      ':' ∉ type.toList → ':' ∉ otherType.toList → '(' ∉ name.toList → '(' ∉ otherName.toList →
      (∀ parameter ∈ parameters, Listable parameter) → (∀ parameter ∈ others, Listable parameter) →
      (ofMethod type name parameters = ofMethod otherType otherName others →
        type = otherType ∧ name = otherName ∧ parameters = others) ∧
      ofMethod type name parameters ≠ ofMember otherType otherName) ∧
    (∀ (options : Options) (metadata : Metadata),
      ∀ first ∈ metadata.memberDefinitions, ∀ second ∈ metadata.memberDefinitions,
      first.2.FollowsNaming first.1 → second.2.FollowsNaming second.1 →
      let catalog := (Analysis.build {} options metadata).2.catalog
      ∃ id other, catalog.memberNamed? first.2.fullName = some id ∧
        catalog.memberNamed? second.2.fullName = some other ∧
        (id = other ↔ first.2.signature first.1 = second.2.signature second.1)) ∧
    ∀ (options : Options) (metadata : Metadata),
      (∀ given ∈ metadata.memberDefinitions, given.2.FollowsNaming given.1) →
      (Architecture.build options metadata).2.saying "Duplicate member definition ignored" =
        ((withEarlier metadata.memberDefinitions).filter fun given =>
          given.1.any fun earlier =>
            earlier.2.signature earlier.1 = given.2.2.signature given.2.1).map fun given =>
          .duplicateMember given.2.2.fullName := by
  refine ⟨?_, fun options metadata first given second givenToo follows followsToo => ?_,
    fun options metadata follow => build_duplicates options follow⟩
  · intro type otherType name otherName parameters others typed otherTyped named otherNamed listed
      otherListed
    have method : Signature.Conventional ⟨type, name, some parameters⟩ :=
      ⟨typed, named, by simpa using listed⟩
    have otherMethod : Signature.Conventional ⟨otherType, otherName, some others⟩ :=
      ⟨otherTyped, otherNamed, by simpa using otherListed⟩
    have otherMember : Signature.Conventional ⟨otherType, otherName, none⟩ :=
      ⟨otherTyped, otherNamed, by simp⟩
    constructor
    · intro same
      have equal := (method.fullName_inj otherMethod).mp same
      simpa using equal
    · intro same
      have equal := (method.fullName_inj otherMember).mp same
      cases equal
  · exact build_apart options given givenToo follows followsToo

/-- Two overloads whose parameter lists hold the same words and commas, and a field of their name. -/
def drawerType : TypeDefinition :=
  let drawer : TypeReference := { fullName := "Shop.Drawer" }
  let void : TypeReference := { fullName := "Sys.Void" }
  { fullName := "Shop.Drawer"
    fields := [{ name := "Put", fullName := "Shop.Drawer::Put", fieldType := void }]
    methods :=
      [.ofSignature drawer "Put" void [{ fullName := "Map<A,B>" }, { fullName := "C" }],
        .ofSignature drawer "Put" void [{ fullName := "Map<A,B,C>" }]] }

def drawerMetadata : Metadata := { assemblies := [{ name := "shop", types := [drawerType] }] }

theorem overloads_apart_drawer :
    let given := drawerMetadata.memberDefinitions
    ofMethod "Shop.Drawer" "Put" ["Map<A,B>", "C"] ≠ ofMethod "Shop.Drawer" "Put" ["Map<A,B,C>"] ∧
      given.length = 3 ∧ (∀ one ∈ given, one.2.FollowsNaming one.1) ∧
      (∀ first ∈ given, ∀ second ∈ given, first ≠ second → ∃ id other,
        (Analysis.build {} {} drawerMetadata).2.catalog.memberNamed? first.2.fullName = some id ∧
        (Analysis.build {} {} drawerMetadata).2.catalog.memberNamed? second.2.fullName = some other ∧
        id ≠ other) ∧
      (Architecture.build {} drawerMetadata).2.saying "Duplicate member definition ignored" = [] := by
  intro given
  have follow : ∀ one ∈ given, one.2.FollowsNaming one.1 := by
    have all : given.all fun one => decide (':' ∉ (one.2.signature one.1).typeName.toList ∧
        '(' ∉ (one.2.signature one.1).name.toList ∧
        (∀ parameters ∈ (one.2.signature one.1).parameters,
          ∀ parameter ∈ parameters, Listable parameter) ∧
        one.2.fullName = (one.2.signature one.1).fullName) := by
      decide +kernel
    intro one there
    obtain ⟨typed, named, listed, fullName⟩ := of_decide_eq_true (List.all_eq_true.mp all one there)
    exact ⟨⟨typed, named, listed⟩, fullName⟩
  have apart : ∀ first ∈ given, ∀ second ∈ given, first ≠ second →
      first.2.signature first.1 ≠ second.2.signature second.1 := by
    decide +kernel
  refine ⟨fun same => ?_, by decide +kernel, follow,
    fun first there second thereToo different => ?_, ?_⟩
  · have equal := (overloads_apart.1 "Shop.Drawer" "Shop.Drawer" "Put" "Put" ["Map<A,B>", "C"]
      ["Map<A,B,C>"] (by decide) (by decide) (by decide) (by decide) (by decide +kernel)
      (by decide +kernel)).1 same
    exact absurd equal.2.2 (by decide)
  · obtain ⟨id, other, named, otherNamed, same⟩ := overloads_apart.2.1 {} drawerMetadata first there
      second thereToo (follow first there) (follow second thereToo)
    exact ⟨id, other, named, otherNamed, fun equal =>
      apart first there second thereToo different (same.mp equal)⟩
  · rw [overloads_apart.2.2 {} drawerMetadata follow]
    decide +kernel

end MemberGraph
