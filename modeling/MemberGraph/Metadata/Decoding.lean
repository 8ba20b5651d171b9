import MemberGraph.Json.Reader
import MemberGraph.Metadata.Encoding

/-!
Metadata from its JSON forms: each structure as an object or as the array of its fields. The fields
of an operand are known only once its kind is, so an operand is taken in whole; a text limits how
deep that may go, while a value at hand is not limited.
-/

set_option autoImplicit false

namespace MemberGraph

/-- How many containers may nest in a value that is taken in whole; `none` is no limit. -/
abbrev DepthLimit := Option Nat

namespace DepthLimit

def ofText : DepthLimit := some 127

def inside (limit : DepthLimit) (containers : Nat) : DepthLimit := limit.map (· - containers)

def allows (limit : DepthLimit) (value : Json) : Bool :=
  match limit with
  | some levels => value.fits levels
  | none => true

end DepthLimit

def TypeReference.ofJson? (json : Json) : Option TypeReference := do
  let record ← json.record? ["full_name", "assembly"]
  return {
    fullName := ← record.required "full_name" Json.text?
    assembly := ← record.withDefault "assembly" none (Json.nullable? Json.text?) }

def MethodReference.ofJson? (json : Json) : Option MethodReference := do
  let record ← json.record? ["declaring_type", "name", "full_name", "return_type", "parameters"]
  return {
    declaringType := ← record.required "declaring_type" TypeReference.ofJson?
    name := ← record.required "name" Json.text?
    fullName := ← record.required "full_name" Json.text?
    returnType := ← record.required "return_type" TypeReference.ofJson?
    parameters := ← record.withDefault "parameters" [] (Json.list? TypeReference.ofJson?) }

def FieldReference.ofJson? (json : Json) : Option FieldReference := do
  let record ← json.record? ["declaring_type", "name", "full_name", "field_type"]
  return {
    declaringType := ← record.required "declaring_type" TypeReference.ofJson?
    name := ← record.required "name" Json.text?
    fullName := ← record.required "full_name" Json.text?
    fieldType := ← record.required "field_type" TypeReference.ofJson? }

/-- The kind of an operand and the value that holds its reference. In an object the kind is a key
beside those of the reference, in an array it is the first element. -/
def Operand.tagged? : Json → Option (String × Json)
  | .object members =>
    match members.filter (·.1 == some "kind") with
    | [(_, .string (some kind))] => some (kind, .object members)
    | _ => none
  | .array (.string (some kind) :: fields) => some (kind, .array fields)
  | _ => none

def Operand.ofJson? (limit : DepthLimit) (json : Json) : Option Operand :=
  if limit.allows json then
    match Operand.tagged? json with
    | some ("type", reference) => (TypeReference.ofJson? reference).map .type
    | some ("field", reference) => (FieldReference.ofJson? reference).map .field
    | some ("method", reference) => (MethodReference.ofJson? reference).map .method
    | _ => none
  else
    none

def Instruction.ofJson? (limit : DepthLimit) (json : Json) : Option Instruction := do
  let record ← json.record? ["opcode", "operand"]
  return {
    opcode := ← record.required "opcode" Json.enum?
    operand := ← record.withDefault "operand" none
      (Json.nullable? (Operand.ofJson? (limit.inside 1))) }

def MethodBody.ofJson? (limit : DepthLimit) (json : Json) : Option MethodBody := do
  let record ← json.record? ["local_variable_types", "instructions"]
  return {
    localVariableTypes := ← record.withDefault "local_variable_types" []
      (Json.list? TypeReference.ofJson?)
    instructions := ← record.withDefault "instructions" []
      (Json.list? (Instruction.ofJson? (limit.inside 2))) }

def FieldDefinition.ofJson? (json : Json) : Option FieldDefinition := do
  let record ← json.record? ["name", "full_name", "field_type", "visibility"]
  return {
    name := ← record.required "name" Json.text?
    fullName := ← record.required "full_name" Json.text?
    fieldType := ← record.required "field_type" TypeReference.ofJson?
    visibility := ← record.withDefault "visibility" .pub Json.enum? }

def MethodDefinition.ofJson? (limit : DepthLimit) (json : Json) : Option MethodDefinition := do
  let record ← json.record?
    ["declaring_type", "name", "full_name", "return_type", "parameters", "generic_parameters",
      "visibility", "is_constructor", "is_getter", "is_setter", "body"]
  return {
    declaringType := ← record.required "declaring_type" TypeReference.ofJson?
    name := ← record.required "name" Json.text?
    fullName := ← record.required "full_name" Json.text?
    returnType := ← record.required "return_type" TypeReference.ofJson?
    parameters := ← record.withDefault "parameters" [] (Json.list? TypeReference.ofJson?)
    genericParameters := ← record.withDefault "generic_parameters" []
      (Json.list? TypeReference.ofJson?)
    visibility := ← record.withDefault "visibility" .pub Json.enum?
    isConstructor := ← record.withDefault "is_constructor" false Json.bool?
    isGetter := ← record.withDefault "is_getter" false Json.bool?
    isSetter := ← record.withDefault "is_setter" false Json.bool?
    body := ← record.withDefault "body" none
      (Json.nullable? (MethodBody.ofJson? (limit.inside 1))) }

def PropertyDefinition.ofJson? (json : Json) : Option PropertyDefinition := do
  let record ← json.record?
    ["name", "full_name", "property_type", "visibility", "getter", "setter"]
  return {
    name := ← record.required "name" Json.text?
    fullName := ← record.required "full_name" Json.text?
    propertyType := ← record.required "property_type" TypeReference.ofJson?
    visibility := ← record.withDefault "visibility" .pub Json.enum?
    getter := ← record.withDefault "getter" none (Json.nullable? Json.text?)
    setter := ← record.withDefault "setter" none (Json.nullable? Json.text?) }

def TypeDefinition.ofJson? (limit : DepthLimit) (json : Json) : Option TypeDefinition := do
  let record ← json.record?
    ["full_name", "kind", "visibility", "fields", "methods", "properties"]
  return {
    fullName := ← record.required "full_name" Json.text?
    kind := ← record.withDefault "kind" .classType Json.enum?
    visibility := ← record.withDefault "visibility" .pub Json.enum?
    fields := ← record.withDefault "fields" [] (Json.list? FieldDefinition.ofJson?)
    methods := ← record.withDefault "methods" []
      (Json.list? (MethodDefinition.ofJson? (limit.inside 2)))
    properties := ← record.withDefault "properties" [] (Json.list? PropertyDefinition.ofJson?) }

def Assembly.ofJson? (limit : DepthLimit) (json : Json) : Option Assembly := do
  let record ← json.record? ["name", "types"]
  return {
    name := ← record.required "name" Json.text?
    types := ← record.withDefault "types" []
      (Json.list? (TypeDefinition.ofJson? (limit.inside 2))) }

def Metadata.ofJson? (limit : DepthLimit) (json : Json) : Option Metadata := do
  let record ← json.record? ["assemblies"]
  return {
    assemblies := ← record.withDefault "assemblies" []
      (Json.list? (Assembly.ofJson? (limit.inside 2))) }

def Metadata.parse? (text : String) : Option Metadata :=
  (Json.parse? text).bind (Metadata.ofJson? .ofText)

end MemberGraph
