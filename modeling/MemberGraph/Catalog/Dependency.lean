import MemberGraph.Json.Record

/-!
Dependencies between members and types, and the coarser ones between types that follow from them.
-/

set_option autoImplicit false

namespace MemberGraph

/-- The position of a type in a catalog. Positions are not bounded here: a catalog is taken to have
fewer than `2 ^ 32` types, so that each position is a word of 32 bits. -/
structure TypeId where
  index : Nat
deriving DecidableEq, Repr, Inhabited

/-- The position of a member in a catalog, which is taken to have fewer than `2 ^ 32` members. -/
structure MemberId where
  index : Nat
deriving DecidableEq, Repr, Inhabited

inductive TypeUse where
  /-- As result, parameter or generic parameter of a method. -/
  | signature
  /-- As local variable or type operand in the body of a method. -/
  | body
  /-- As type of a field. -/
  | field
  /-- As type of a property. -/
  | property
deriving DecidableEq, Repr, Inhabited

inductive DependencyKind where
  | typeUse (use : TypeUse)
  | call
deriving DecidableEq, Repr, Inhabited

instance : Enumeration DependencyKind where
  all := [.typeUse .signature, .typeUse .body, .typeUse .field, .typeUse .property, .call]
  name
    | .typeUse .signature => "method_signature"
    | .typeUse .body => "body_type"
    | .typeUse .field => "field_type"
    | .typeUse .property => "property_type"
    | .call => "method_call"

def DependencyKind.label : DependencyKind → String
  | .typeUse .signature => "MethodSignature"
  | .typeUse .body => "BodyType"
  | .typeUse .field => "FieldType"
  | .typeUse .property => "PropertyType"
  | .call => "MethodCall"

inductive Dependency where
  | onType (use : TypeUse) (origin : MemberId) (target : TypeId)
  | call (origin target : MemberId)
deriving DecidableEq, Repr, Inhabited

namespace Dependency

def kind : Dependency → DependencyKind
  | onType use _ _ => .typeUse use
  | call _ _ => .call

def origin : Dependency → MemberId
  | onType _ origin _ => origin
  | call origin _ => origin

end Dependency

/-- A dependency between two types, with the dependency of a member that it comes from. -/
structure TypeDependency where
  kind : DependencyKind
  origin : TypeId
  target : TypeId
  via : Dependency
deriving DecidableEq, Repr, Inhabited

end MemberGraph
