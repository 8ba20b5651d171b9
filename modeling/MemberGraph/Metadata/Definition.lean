import MemberGraph.Metadata.Instruction

/-!
Definitions of types and their members, and the assemblies that hold them. Together they are the
input of an analysis.
-/

set_option autoImplicit false

namespace MemberGraph

inductive Visibility where
  | pub | internal | prot | protInternal | privProt | priv
deriving DecidableEq, Repr, Inhabited

inductive TypeKind where
  | classType | interfaceType | structType | enumType | delegateType | unknown
deriving DecidableEq, Repr, Inhabited

/-- What a method is for; a method that is known from calls only has no form. -/
inductive MethodForm where
  | unspecified | normal | constructor | getter | setter
deriving DecidableEq, Repr, Inhabited

def MethodForm.isAccessor : MethodForm → Bool
  | .getter | .setter => true
  | _ => false

structure FieldDefinition where
  name : String
  fullName : String
  fieldType : TypeReference
  visibility : Visibility := .pub
deriving DecidableEq, Repr, Inhabited

structure MethodDefinition where
  declaringType : TypeReference
  name : String
  fullName : String
  returnType : TypeReference
  parameters : List TypeReference := []
  genericParameters : List TypeReference := []
  visibility : Visibility := .pub
  isConstructor : Bool := false
  isGetter : Bool := false
  isSetter : Bool := false
  body : Option MethodBody := none
deriving DecidableEq, Repr, Inhabited

namespace MethodDefinition

/-- A public method without body, under the full name that its signature makes up. -/
def ofSignature (declaringType : TypeReference) (name : String) (returnType : TypeReference)
    (parameters : List TypeReference) : MethodDefinition where
  declaringType
  name
  fullName := FullName.ofMethod declaringType.fullName name (parameters.map (·.fullName))
  returnType
  parameters

/-- The form that the flags give; a constructor flag wins over a getter's, and that over a
setter's. -/
def form (method : MethodDefinition) : MethodForm :=
  if method.isConstructor then .constructor
  else if method.isGetter then .getter
  else if method.isSetter then .setter
  else .normal

/-- Whether the method is flagged as accessor, whatever else it is flagged as. -/
def isAccessor (method : MethodDefinition) : Bool := method.isGetter || method.isSetter

def reference (method : MethodDefinition) : MethodReference where
  declaringType := method.declaringType
  name := method.name
  fullName := method.fullName
  returnType := method.returnType
  parameters := method.parameters

def signatureTypes (method : MethodDefinition) : List TypeReference :=
  method.returnType :: method.parameters ++ method.genericParameters

end MethodDefinition

/-- The definition of a property; its accessors are given by full name. -/
structure PropertyDefinition where
  name : String
  fullName : String
  propertyType : TypeReference
  visibility : Visibility := .pub
  getter : Option String := none
  setter : Option String := none
deriving DecidableEq, Repr, Inhabited

structure TypeDefinition where
  fullName : String
  kind : TypeKind := .classType
  visibility : Visibility := .pub
  fields : List FieldDefinition := []
  methods : List MethodDefinition := []
  properties : List PropertyDefinition := []
deriving DecidableEq, Repr, Inhabited

def TypeDefinition.reference (definition : TypeDefinition) : TypeReference where
  fullName := definition.fullName

structure Assembly where
  name : String
  types : List TypeDefinition := []
deriving DecidableEq, Repr, Inhabited

structure Metadata where
  assemblies : List Assembly := []
deriving DecidableEq, Repr, Inhabited

end MemberGraph
