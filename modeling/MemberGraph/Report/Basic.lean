import MemberGraph.Analysis.Build
import MemberGraph.TypeGraph

/-!
Reports on a finished analysis: a summary, the list of types, one member with its dependencies, and
the cycles between types.
-/

set_option autoImplicit false

namespace MemberGraph

/-- A finished analysis and where its metadata came from. -/
structure Project where
  sourcePath : String
  architecture : Architecture

structure Summary where
  sourcePath : String
  typeCount : Nat
  stubTypeCount : Nat
  memberCount : Nat
  memberDependencyCount : Nat
  typeDependencyCount : Nat
  statistics : Statistics
deriving DecidableEq, Repr

structure TypeItem where
  fullName : String
  kind : String
  isStub : Bool
  memberCount : Nat
  dependencyCount : Nat
deriving DecidableEq, Repr

structure TypeList where
  items : List TypeItem
deriving DecidableEq, Repr

structure DependencyItem where
  kind : DependencyKind
  origin : String
  target : String
  targetIsStub : Bool
deriving DecidableEq, Repr

structure PropertyLinkNames where
  getter : Option String
  setter : Option String
  backingField : Option String
deriving DecidableEq, Repr

structure MemberReport where
  fullName : String
  memberKind : String
  declaringType : String
  isStub : Bool
  dependencies : List DependencyItem
  backwards : List DependencyItem
  /-- The links, if the member is a property. -/
  property : Option PropertyLinkNames
  /-- The property that the member stores, if it is a field that stores one. -/
  backedProperty : Option String
deriving DecidableEq, Repr

/-- The cycles between types, each by the full names of its types. -/
structure CycleList where
  cycles : List (List String)
deriving DecidableEq, Repr

def TypeKind.label : TypeKind → String
  | .classType => "Class"
  | .interfaceType => "Interface"
  | .structType => "Struct"
  | .enumType => "Enum"
  | .delegateType => "Delegate"
  | .unknown => "Unknown"

def MemberRole.word : MemberRole → String
  | .method _ => "method"
  | .field _ => "field"
  | .property _ => "property"

namespace Catalog

def typeName (catalog : Catalog) (id : TypeId) : String := (catalog.type? id).elim "" (·.fullName)

def memberName (catalog : Catalog) (id : MemberId) : String :=
  (catalog.member? id).elim "" (·.fullName)

def dependencyItem (catalog : Catalog) (dependency : Dependency) : DependencyItem :=
  let origin := catalog.memberName dependency.origin
  match dependency with
  | .onType use _ target =>
    { kind := .typeUse use, origin, target := catalog.typeName target
      targetIsStub := catalog.isStubType target }
  | .call _ target =>
    { kind := .call, origin, target := catalog.memberName target
      targetIsStub := (catalog.member? target).any (·.isStub) }

def memberReport (catalog : Catalog) (member : Member) : MemberReport where
  fullName := member.fullName
  memberKind := member.role.word
  declaringType := catalog.typeName member.declaringType
  isStub := member.isStub
  dependencies := member.dependencies.toList.map catalog.dependencyItem
  backwards := member.backwards.toList.map catalog.dependencyItem
  property := member.property?.map fun links =>
    { getter := links.getter.map catalog.memberName
      setter := links.setter.map catalog.memberName
      backingField := links.backingField.map catalog.memberName }
  backedProperty := member.backedProperty?.map catalog.memberName

end Catalog

namespace Architecture

def typeNamed? (architecture : Architecture) (fullName : String) : Option TypeEntry :=
  (architecture.catalog.typeNamed? fullName).bind architecture.catalog.type?

def memberNamed? (architecture : Architecture) (fullName : String) : Option Member :=
  (architecture.catalog.memberNamed? fullName).bind architecture.catalog.member?

/-- The types that are defined, not only referred to. -/
def definedTypes (architecture : Architecture) : List TypeEntry :=
  architecture.catalog.types.toList.filter (!·.isStub)

end Architecture

namespace Project

def summary (project : Project) : Summary :=
  let catalog := project.architecture.catalog
  { sourcePath := project.sourcePath
    typeCount := catalog.types.size
    stubTypeCount := catalog.stubTypeCount
    memberCount := catalog.members.size
    memberDependencyCount := (catalog.members.toList.flatMap (·.dependencies.toList)).length
    typeDependencyCount := (catalog.types.toList.flatMap (·.dependencies.toList)).length
    statistics := project.architecture.statistics }

def types (project : Project) (withStubs : Bool) : TypeList where
  items :=
    (project.architecture.catalog.types.toList.filter fun entry => withStubs || !entry.isStub).map
      fun entry =>
        { fullName := entry.fullName
          kind := entry.kind.label
          isStub := entry.isStub
          memberCount := entry.members.size
          dependencyCount := entry.dependencies.size }

def member? (project : Project) (fullName : String) : Option MemberReport :=
  (project.architecture.memberNamed? fullName).map project.architecture.catalog.memberReport

def cycles (project : Project) : CycleList :=
  let catalog := project.architecture.catalog
  { cycles := catalog.dependencyGraph.cycles.map (·.map catalog.typeName) }

end Project

end MemberGraph
