import MemberGraph.Json.Record
import MemberGraph.Metadata.Definition

/-!
The JSON form of metadata. Every structure is written as an object with all its keys; only an
absent assembly or operand is left out, while an absent body or accessor is written as null.
-/

set_option autoImplicit false

namespace MemberGraph

instance : Enumeration Visibility where
  all := [.pub, .internal, .prot, .protInternal, .privProt, .priv]
  name
    | .pub => "public"
    | .internal => "internal"
    | .prot => "protected"
    | .protInternal => "protected_internal"
    | .privProt => "private_protected"
    | .priv => "private"

instance : Enumeration TypeKind where
  all := [.classType, .interfaceType, .structType, .enumType, .delegateType, .unknown]
  name
    | .classType => "class"
    | .interfaceType => "interface"
    | .structType => "struct"
    | .enumType => "enum"
    | .delegateType => "delegate"
    | .unknown => "unknown"

instance : Enumeration MethodForm where
  all := [.unspecified, .normal, .constructor, .getter, .setter]
  name
    | .unspecified => "none"
    | .normal => "normal"
    | .constructor => "constructor"
    | .getter => "getter"
    | .setter => "setter"

instance : Enumeration OpCode where
  all := [.call, .callvirt, .newobj, .ldftn, .ldvirtftn, .ldfld, .ldflda, .stfld, .ldsfld,
    .ldsflda, .stsfld, .box, .castclass, .isinst, .newarr, .ldtoken, .initobj, .ret, .other]
  name
    | .call => "call"
    | .callvirt => "callvirt"
    | .newobj => "newobj"
    | .ldftn => "ldftn"
    | .ldvirtftn => "ldvirtftn"
    | .ldfld => "ldfld"
    | .ldflda => "ldflda"
    | .stfld => "stfld"
    | .ldsfld => "ldsfld"
    | .ldsflda => "ldsflda"
    | .stsfld => "stsfld"
    | .box => "box"
    | .castclass => "castclass"
    | .isinst => "isinst"
    | .newarr => "newarr"
    | .ldtoken => "ldtoken"
    | .initobj => "initobj"
    | .ret => "ret"
    | .other => "other"

def TypeReference.jsonFields (reference : TypeReference) : List (String × Json) :=
  ("full_name", .text reference.fullName) :: Json.presentField "assembly" .text reference.assembly

def TypeReference.toJson (reference : TypeReference) : Json := .ofFields reference.jsonFields

def MethodReference.jsonFields (reference : MethodReference) : List (String × Json) :=
  [("declaring_type", reference.declaringType.toJson),
    ("name", .text reference.name),
    ("full_name", .text reference.fullName),
    ("return_type", reference.returnType.toJson),
    ("parameters", .ofList TypeReference.toJson reference.parameters)]

def MethodReference.toJson (reference : MethodReference) : Json := .ofFields reference.jsonFields

def FieldReference.jsonFields (reference : FieldReference) : List (String × Json) :=
  [("declaring_type", reference.declaringType.toJson),
    ("name", .text reference.name),
    ("full_name", .text reference.fullName),
    ("field_type", reference.fieldType.toJson)]

def FieldReference.toJson (reference : FieldReference) : Json := .ofFields reference.jsonFields

/-- The JSON form of an operand: its reference, tagged with what it refers to. -/
def Operand.toJson : Operand → Json
  | .type reference => .ofFields (("kind", .text "type") :: reference.jsonFields)
  | .field reference => .ofFields (("kind", .text "field") :: reference.jsonFields)
  | .method reference => .ofFields (("kind", .text "method") :: reference.jsonFields)

def Instruction.toJson (instruction : Instruction) : Json :=
  .ofFields
    (("opcode", .ofEnum instruction.opcode) ::
      Json.presentField "operand" Operand.toJson instruction.operand)

def MethodBody.toJson (body : MethodBody) : Json :=
  .ofFields
    [("local_variable_types", .ofList TypeReference.toJson body.localVariableTypes),
      ("instructions", .ofList Instruction.toJson body.instructions)]

def FieldDefinition.toJson (field : FieldDefinition) : Json :=
  .ofFields
    [("name", .text field.name),
      ("full_name", .text field.fullName),
      ("field_type", field.fieldType.toJson),
      ("visibility", .ofEnum field.visibility)]

def MethodDefinition.toJson (method : MethodDefinition) : Json :=
  .ofFields
    [("declaring_type", method.declaringType.toJson),
      ("name", .text method.name),
      ("full_name", .text method.fullName),
      ("return_type", method.returnType.toJson),
      ("parameters", .ofList TypeReference.toJson method.parameters),
      ("generic_parameters", .ofList TypeReference.toJson method.genericParameters),
      ("visibility", .ofEnum method.visibility),
      ("is_constructor", .bool method.isConstructor),
      ("is_getter", .bool method.isGetter),
      ("is_setter", .bool method.isSetter),
      ("body", .ofOption MethodBody.toJson method.body)]

def PropertyDefinition.toJson (property : PropertyDefinition) : Json :=
  .ofFields
    [("name", .text property.name),
      ("full_name", .text property.fullName),
      ("property_type", property.propertyType.toJson),
      ("visibility", .ofEnum property.visibility),
      ("getter", .ofOption .text property.getter),
      ("setter", .ofOption .text property.setter)]

def TypeDefinition.toJson (definition : TypeDefinition) : Json :=
  .ofFields
    [("full_name", .text definition.fullName),
      ("kind", .ofEnum definition.kind),
      ("visibility", .ofEnum definition.visibility),
      ("fields", .ofList FieldDefinition.toJson definition.fields),
      ("methods", .ofList MethodDefinition.toJson definition.methods),
      ("properties", .ofList PropertyDefinition.toJson definition.properties)]

def Assembly.toJson (assembly : Assembly) : Json :=
  .ofFields
    [("name", .text assembly.name), ("types", .ofList TypeDefinition.toJson assembly.types)]

def Metadata.toJson (metadata : Metadata) : Json :=
  .ofFields [("assemblies", .ofList Assembly.toJson metadata.assemblies)]

end MemberGraph
