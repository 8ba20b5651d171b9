import MemberGraph.FullName

/-!
References by name to types, methods and fields, as they stand in signatures and instructions.
-/

set_option autoImplicit false

namespace MemberGraph

/-- A type, referred to by its full name and perhaps by the assembly it is in. -/
structure TypeReference where
  fullName : String
  assembly : Option String := none
deriving DecidableEq, Repr, Inhabited

def TypeReference.name (reference : TypeReference) : String :=
  FullName.simpleNameOf reference.fullName

def TypeReference.namespaceName (reference : TypeReference) : String :=
  FullName.namespaceOf reference.fullName

/-- A method, referred to by its full name and its signature. -/
structure MethodReference where
  declaringType : TypeReference
  name : String
  fullName : String
  returnType : TypeReference
  parameters : List TypeReference := []
deriving DecidableEq, Repr, Inhabited

/-- The method of the given name and signature, under the full name that these make up. -/
def MethodReference.ofSignature (declaringType : TypeReference) (name : String)
    (returnType : TypeReference) (parameters : List TypeReference) : MethodReference where
  declaringType
  name
  fullName := FullName.ofMethod declaringType.fullName name (parameters.map (·.fullName))
  returnType
  parameters

structure FieldReference where
  declaringType : TypeReference
  name : String
  fullName : String
  fieldType : TypeReference
deriving DecidableEq, Repr, Inhabited

def FieldReference.ofName (declaringType : TypeReference) (name : String)
    (fieldType : TypeReference) : FieldReference where
  declaringType
  name
  fullName := FullName.ofMember declaringType.fullName name
  fieldType

end MemberGraph
