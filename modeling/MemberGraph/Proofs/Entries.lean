import MemberGraph.Proofs.Allocation

/-!
The entries that an analysis starts from, position by position. The types that are defined come first,
in the order of their first definitions, and their members add nothing but stubs after them.
-/

set_option autoImplicit false

namespace MemberGraph

/-- The types that metadata defines, the first of each name, with their assemblies. -/
def Metadata.firstTypes (metadata : Metadata) : List (String × TypeDefinition) :=
  firstOf (·.2.fullName) metadata.namedDefinitions

def Metadata.firstMembers (metadata : Metadata) : List (String × MemberDefinition) :=
  firstOf (·.2.fullName) metadata.memberDefinitions

def Metadata.firstMembersOf (metadata : Metadata) (typeName : String) : List MemberDefinition :=
  (metadata.firstMembers.filter (·.1 = typeName)).map (·.2)

def definedEntry (given : String × TypeDefinition) (id : TypeId) : TypeEntry where
  id
  fullName := given.2.fullName
  name := FullName.simpleNameOf given.2.fullName
  namespaceName := FullName.namespaceOf given.2.fullName
  assembly := some given.1
  kind := given.2.kind
  visibility := given.2.visibility
  isStub := false

namespace Analysis

open Catalog

/-! ## Types -/

/-- The types of a catalog, by id, are the first of each name among those that were given. -/
def TypesInOrder (catalog : Catalog) (done : List (String × TypeDefinition)) : Prop :=
  catalog.types.toList =
    (firstOf (·.2.fullName) done).mapIdx fun index given => definedEntry given ⟨index⟩

namespace TypesInOrder

variable {analysis : Analysis} {catalog : Catalog} {done : List (String × TypeDefinition)}

theorem type? (inOrder : TypesInOrder catalog done) (id : TypeId) :
    catalog.type? id =
      ((firstOf (·.2.fullName) done)[id.index]?).map (definedEntry · id) := by
  rw [Catalog.type?, ← Array.getElem?_toList, show catalog.types.toList = _ from inOrder,
    List.getElem?_mapIdx]

theorem size (inOrder : TypesInOrder catalog done) :
    catalog.types.size = (firstOf (·.2.fullName) done).length := by
  rw [← Array.length_toList, show catalog.types.toList = _ from inOrder, List.length_mapIdx]

theorem typeNamed? (inOrder : TypesInOrder catalog done) (formed : catalog.WellFormed)
    (name : String) : (catalog.typeNamed? name).isSome = done.any (·.2.fullName = name) := by
  rw [← any_firstOf, Bool.eq_iff_iff, Option.isSome_iff_exists, List.any_eq_true]
  constructor
  · intro ⟨id, named⟩
    obtain ⟨entry, found, fullName⟩ := formed.typeNamed?_iff.mp named
    rw [inOrder.type?] at found
    obtain ⟨given, there, rfl⟩ := Option.map_eq_some_iff.mp found
    exact ⟨given, List.mem_of_getElem? there, by simpa [definedEntry] using fullName⟩
  · intro ⟨given, there, same⟩
    obtain ⟨index, found⟩ := List.getElem?_of_mem there
    refine ⟨⟨index⟩, formed.typeNamed?_iff.mpr ⟨definedEntry given ⟨index⟩, ?_, ?_⟩⟩
    · rw [inOrder.type?, found]
      rfl
    · simpa [definedEntry] using same

theorem isDefined (inOrder : TypesInOrder catalog done) (formed : catalog.WellFormed)
    (name : String) : isDefined catalog name = (catalog.typeNamed? name).isSome := by
  unfold Analysis.isDefined
  cases named : catalog.typeNamed? name with
  | none => rfl
  | some id =>
      obtain ⟨entry, found, _⟩ := formed.typeNamed?_iff.mp named
      rw [inOrder.type?] at found
      obtain ⟨given, there, rfl⟩ := Option.map_eq_some_iff.mp found
      simp [inOrder.type?, there, definedEntry]

theorem loadType (inOrder : TypesInOrder analysis.catalog done)
    (formed : analysis.catalog.WellFormed) (given : String × TypeDefinition) :
    TypesInOrder (analysis.loadType given.1 given.2).2.catalog (done ++ [given]) := by
  have known := inOrder.typeNamed? formed given.2.fullName
  have defined := (inOrder.isDefined formed given.2.fullName).trans known
  unfold TypesInOrder
  rw [firstOf_concat]
  cases before : done.any (·.2.fullName = given.2.fullName) with
  | true =>
      rw [before] at defined
      rw [(loadType_of_defined defined given.1).2]
      simpa [TypesInOrder] using inOrder
  | false =>
      rw [before] at defined known
      have fresh : analysis.catalog.typeNamed? given.2.fullName = none := by simpa using known
      rw [(loadType_of_undefined defined given.1).2]
      simp only [Catalog.defineType, fresh, addType, Array.toList_push, Bool.false_eq_true, if_false,
        List.mapIdx_concat, ← inOrder.size]
      rw [show analysis.catalog.types.toList = _ from inOrder]
      rfl

theorem loadTypes (inOrder : TypesInOrder analysis.catalog done)
    (formed : analysis.catalog.WellFormed) (rest : List (String × TypeDefinition)) :
    TypesInOrder (analysis.loadTypes rest).2.catalog (done ++ rest) := by
  induction rest generalizing analysis done with
  | nil => simpa [Analysis.loadTypes] using inOrder
  | cons given rest ih =>
      have changes : Changes .existingOnly analysis.catalog
          (analysis.loadType given.1 given.2).2.catalog := loadType_changes given.1 given.2
      have others := ih (inOrder.loadType formed given) (changes.wellFormed formed)
      rwa [List.append_assoc, List.singleton_append] at others

end TypesInOrder

theorem typesLoaded_inOrder (metadata : Metadata) :
    TypesInOrder (typesLoaded metadata).2.catalog (typeDefinitions metadata) := by
  have none : TypesInOrder ({} : Analysis).catalog [] := rfl
  exact none.loadTypes wellFormed_empty (typeDefinitions metadata)

/-! ## The pass over members -/

theorem extends_keptByLoading (catalog : Catalog) : KeptByLoading catalog.Extends := by
  constructor
  · intro later reference fresh before
    exact before.trans (extends_addType _ _ _ fresh)
  · intro later key make _ before
    exact before.trans (extends_addMember key make)
  · intro later id dependencies before
    exact before.trans (extends_addDependencies id dependencies)

theorem loadMember_extends (analysis : Analysis) (on : TypeId) (definition : MemberDefinition) :
    analysis.catalog.Extends (analysis.loadMember on definition).catalog :=
  (extends_keptByLoading _).loadMember (.refl _) on definition

theorem typesLoaded_extends (metadata : Metadata) :
    (typesLoaded metadata).2.catalog.Extends (allocate {} metadata).2.catalog :=
  (extends_keptByLoading _).foldl_loadMembers (.refl _) _

end Analysis

end MemberGraph
