import MemberGraph.Catalog.Dependency
import MemberGraph.Metadata.Definition

/-!
The entries of a catalog: types, and the methods, fields and properties declared on them.
-/

set_option autoImplicit false

namespace MemberGraph

/-- A type of a catalog. A stub is known from references only. -/
structure TypeEntry where
  id : TypeId
  fullName : String
  name : String
  namespaceName : String
  assembly : Option String
  kind : TypeKind
  visibility : Visibility
  isStub : Bool
  /-- The members declared on the type, in order of creation. -/
  members : Array MemberId := #[]
  /-- The dependencies on other types. -/
  dependencies : Array TypeDependency := #[]
  /-- The dependencies of other types on this one. -/
  backwards : Array TypeDependency := #[]
deriving DecidableEq, Repr, Inhabited

structure MethodTraits where
  form : MethodForm := .unspecified
  parameters : List TypeId := []
  genericParameters : List TypeId := []
  hasBody : Bool := false
deriving DecidableEq, Repr, Inhabited

structure PropertyLinks where
  getter : Option MemberId := none
  setter : Option MemberId := none
  backingField : Option MemberId := none
deriving DecidableEq, Repr, Inhabited

inductive MemberRole where
  | method (traits : MethodTraits)
  /-- A field, with the property that it stores. -/
  | field (backedProperty : Option MemberId)
  | property (links : PropertyLinks)
deriving DecidableEq, Repr, Inhabited

/-- A member of a catalog. Its type is the result of a method, or the type of a field or
property. -/
structure Member where
  id : MemberId
  declaringType : TypeId
  name : String
  fullName : String
  memberType : TypeId
  visibility : Visibility
  isStub : Bool
  role : MemberRole
  /-- What the member depends on. -/
  dependencies : Array Dependency := #[]
  /-- The calls of this member by others. -/
  backwards : Array Dependency := #[]
deriving DecidableEq, Repr, Inhabited

namespace Member

def method? (member : Member) : Option MethodTraits :=
  match member.role with
  | .method traits => some traits
  | _ => none

def property? (member : Member) : Option PropertyLinks :=
  match member.role with
  | .property links => some links
  | _ => none

def isMethod (member : Member) : Bool := member.method?.isSome

def isProperty (member : Member) : Bool := member.property?.isSome

def isField (member : Member) : Bool :=
  match member.role with
  | .field _ => true
  | _ => false

def backedProperty? (member : Member) : Option MemberId :=
  match member.role with
  | .field backed => backed
  | _ => none

end Member

end MemberGraph
