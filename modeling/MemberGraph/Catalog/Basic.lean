import MemberGraph.Catalog.Entry
import Std.Data.TreeMap

/-!
The catalog: every type and member of one analysis, defined or only referred to. An id is a position
in order of creation, and the full name is the identity: a name has one entry.
-/

set_option autoImplicit false

namespace MemberGraph

/-- All types and members, with an index of each by name. -/
structure Catalog where
  types : Array TypeEntry := #[]
  members : Array Member := #[]
  typeIndex : Std.TreeMap String TypeId := ∅
  memberIndex : Std.TreeMap String MemberId := ∅

namespace Catalog

def empty : Catalog := {}

/-! ## Look-ups -/

def type? (catalog : Catalog) (id : TypeId) : Option TypeEntry := catalog.types[id.index]?

def member? (catalog : Catalog) (id : MemberId) : Option Member := catalog.members[id.index]?

def hasType (catalog : Catalog) (id : TypeId) : Bool := id.index < catalog.types.size

def hasMember (catalog : Catalog) (id : MemberId) : Bool := id.index < catalog.members.size

def typeNamed? (catalog : Catalog) (fullName : String) : Option TypeId :=
  catalog.typeIndex[fullName]?

def memberNamed? (catalog : Catalog) (fullName : String) : Option MemberId :=
  catalog.memberIndex[fullName]?

def methodNamed? (catalog : Catalog) (on : TypeId) (fullName : String) : Option MemberId := do
  let id ← catalog.memberNamed? fullName
  let member ← catalog.member? id
  if member.isMethod ∧ member.declaringType = on then some id else none

def isStubType (catalog : Catalog) (id : TypeId) : Bool := (catalog.type? id).any (·.isStub)

def stubTypeCount (catalog : Catalog) : Nat := catalog.types.countP (·.isStub)

/-! ## Types -/

def updateType (catalog : Catalog) (id : TypeId) (change : TypeEntry → TypeEntry) : Catalog :=
  { catalog with types := catalog.types.modify id.index change }

def addType (catalog : Catalog) (reference : TypeReference) (kind : TypeKind)
    (visibility : Visibility) (isStub : Bool) : TypeId × Catalog :=
  let id : TypeId := ⟨catalog.types.size⟩
  let entry : TypeEntry := {
    id
    fullName := reference.fullName
    name := reference.name
    namespaceName := reference.namespaceName
    assembly := reference.assembly
    kind
    visibility
    isStub }
  (id, { catalog with
    types := catalog.types.push entry
    typeIndex := catalog.typeIndex.insert reference.fullName id })

def addStubType (catalog : Catalog) (reference : TypeReference) : TypeId × Catalog :=
  catalog.addType reference .unknown .pub true

def promote (reference : TypeReference) (kind : TypeKind) (visibility : Visibility)
    (entry : TypeEntry) : TypeEntry :=
  if entry.isStub then
    { entry with
      isStub := false, kind, visibility, assembly := reference.assembly.or entry.assembly }
  else
    entry

/-- Defines a type: adds it, or turns its stub into a defined type. A second definition changes
nothing. -/
def defineType (catalog : Catalog) (reference : TypeReference) (kind : TypeKind)
    (visibility : Visibility) : TypeId × Catalog :=
  match catalog.typeNamed? reference.fullName with
  | some id => (id, catalog.updateType id (promote reference kind visibility))
  | none => catalog.addType reference kind visibility false

def addTypeDependency (catalog : Catalog) (dependency : TypeDependency) : Catalog :=
  let withTarget := catalog.updateType dependency.target fun entry =>
    { entry with backwards := entry.backwards.push dependency }
  withTarget.updateType dependency.origin fun entry =>
    { entry with dependencies := entry.dependencies.push dependency }

/-! ## Members -/

def updateMember (catalog : Catalog) (id : MemberId) (change : Member → Member) : Catalog :=
  { catalog with members := catalog.members.modify id.index change }

/-- Adds the member that `make` gives for its id, under `key`. If the key is taken, its member is
the answer and nothing is added. -/
def addMember (catalog : Catalog) (key : String) (make : MemberId → Member) : MemberId × Catalog :=
  match catalog.memberNamed? key with
  | some id => (id, catalog)
  | none =>
    let id : MemberId := ⟨catalog.members.size⟩
    let member := make id
    let withType := catalog.updateType member.declaringType fun entry =>
      { entry with members := entry.members.push id }
    (id, { withType with
      members := withType.members.push member
      memberIndex := withType.memberIndex.insert key id })

def addDependencies (catalog : Catalog) (id : MemberId) (dependencies : List Dependency) :
    Catalog :=
  catalog.updateMember id fun member =>
    { member with dependencies := member.dependencies ++ dependencies }

def addBackwards (catalog : Catalog) (id : MemberId) (dependency : Dependency) : Catalog :=
  catalog.updateMember id fun member =>
    { member with backwards := member.backwards.push dependency }

end Catalog

end MemberGraph
