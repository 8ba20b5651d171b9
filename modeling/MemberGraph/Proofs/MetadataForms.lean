import MemberGraph.Proofs.JsonForms
import MemberGraph.Proofs.JsonPrinting

/-!
Every JSON form of metadata is read as that metadata, and the encoding is one of these forms. The forms
of a structure are told by its fields; so are those of an operand, which has its kind as one field
more.
-/

set_option autoImplicit false

namespace MemberGraph

open Json

/-! ## Forms -/

def TypeReference.forms (reference : TypeReference) : List FieldForm :=
  [.required "full_name" TextForm reference.fullName,
    .defaulted "assembly" none (NullableForm TextForm) reference.assembly]

def TypeReference.WrittenAs (reference : TypeReference) : Json → Prop :=
  StructureForm reference.forms

def MethodReference.forms (reference : MethodReference) : List FieldForm :=
  [.required "declaring_type" TypeReference.WrittenAs reference.declaringType,
    .required "name" TextForm reference.name,
    .required "full_name" TextForm reference.fullName,
    .required "return_type" TypeReference.WrittenAs reference.returnType,
    .defaulted "parameters" [] (ListForm TypeReference.WrittenAs) reference.parameters]

def MethodReference.WrittenAs (reference : MethodReference) : Json → Prop :=
  StructureForm reference.forms

def FieldReference.forms (reference : FieldReference) : List FieldForm :=
  [.required "declaring_type" TypeReference.WrittenAs reference.declaringType,
    .required "name" TextForm reference.name,
    .required "full_name" TextForm reference.fullName,
    .required "field_type" TypeReference.WrittenAs reference.fieldType]

def FieldReference.WrittenAs (reference : FieldReference) : Json → Prop :=
  StructureForm reference.forms

/-- An operand is written as its reference, with its kind as first field. -/
def Operand.forms : Operand → List FieldForm
  | .type reference => kindField "type" :: reference.forms
  | .field reference => kindField "field" :: reference.forms
  | .method reference => kindField "method" :: reference.forms

def Operand.WrittenAs (operand : Operand) : Json → Prop := StructureForm operand.forms

def Instruction.forms (instruction : Instruction) : List FieldForm :=
  [.required "opcode" EnumForm instruction.opcode,
    .defaulted "operand" none (NullableForm Operand.WrittenAs) instruction.operand]

def Instruction.WrittenAs (instruction : Instruction) : Json → Prop :=
  StructureForm instruction.forms

def MethodBody.forms (body : MethodBody) : List FieldForm :=
  [.defaulted "local_variable_types" [] (ListForm TypeReference.WrittenAs) body.localVariableTypes,
    .defaulted "instructions" [] (ListForm Instruction.WrittenAs) body.instructions]

def MethodBody.WrittenAs (body : MethodBody) : Json → Prop := StructureForm body.forms

def FieldDefinition.forms (field : FieldDefinition) : List FieldForm :=
  [.required "name" TextForm field.name,
    .required "full_name" TextForm field.fullName,
    .required "field_type" TypeReference.WrittenAs field.fieldType,
    .defaulted "visibility" .pub EnumForm field.visibility]

def FieldDefinition.WrittenAs (field : FieldDefinition) : Json → Prop := StructureForm field.forms

def MethodDefinition.forms (method : MethodDefinition) : List FieldForm :=
  [.required "declaring_type" TypeReference.WrittenAs method.declaringType,
    .required "name" TextForm method.name,
    .required "full_name" TextForm method.fullName,
    .required "return_type" TypeReference.WrittenAs method.returnType,
    .defaulted "parameters" [] (ListForm TypeReference.WrittenAs) method.parameters,
    .defaulted "generic_parameters" [] (ListForm TypeReference.WrittenAs) method.genericParameters,
    .defaulted "visibility" .pub EnumForm method.visibility,
    .defaulted "is_constructor" false BoolForm method.isConstructor,
    .defaulted "is_getter" false BoolForm method.isGetter,
    .defaulted "is_setter" false BoolForm method.isSetter,
    .defaulted "body" none (NullableForm MethodBody.WrittenAs) method.body]

def MethodDefinition.WrittenAs (method : MethodDefinition) : Json → Prop :=
  StructureForm method.forms

def PropertyDefinition.forms (property : PropertyDefinition) : List FieldForm :=
  [.required "name" TextForm property.name,
    .required "full_name" TextForm property.fullName,
    .required "property_type" TypeReference.WrittenAs property.propertyType,
    .defaulted "visibility" .pub EnumForm property.visibility,
    .defaulted "getter" none (NullableForm TextForm) property.getter,
    .defaulted "setter" none (NullableForm TextForm) property.setter]

def PropertyDefinition.WrittenAs (property : PropertyDefinition) : Json → Prop :=
  StructureForm property.forms

def TypeDefinition.forms (definition : TypeDefinition) : List FieldForm :=
  [.required "full_name" TextForm definition.fullName,
    .defaulted "kind" .classType EnumForm definition.kind,
    .defaulted "visibility" .pub EnumForm definition.visibility,
    .defaulted "fields" [] (ListForm FieldDefinition.WrittenAs) definition.fields,
    .defaulted "methods" [] (ListForm MethodDefinition.WrittenAs) definition.methods,
    .defaulted "properties" [] (ListForm PropertyDefinition.WrittenAs) definition.properties]

def TypeDefinition.WrittenAs (definition : TypeDefinition) : Json → Prop :=
  StructureForm definition.forms

def Assembly.forms (assembly : Assembly) : List FieldForm :=
  [.required "name" TextForm assembly.name,
    .defaulted "types" [] (ListForm TypeDefinition.WrittenAs) assembly.types]

def Assembly.WrittenAs (assembly : Assembly) : Json → Prop := StructureForm assembly.forms

def Metadata.forms (metadata : Metadata) : List FieldForm :=
  [.defaulted "assemblies" [] (ListForm Assembly.WrittenAs) metadata.assemblies]

def Metadata.WrittenAs (metadata : Metadata) : Json → Prop := StructureForm metadata.forms

/-! ## Reading -/

theorem visibility_namesApart : NamesApart Visibility := by
  intro value
  cases value <;> rfl

private theorem typeKind_namesApart : NamesApart TypeKind := by
  intro value
  cases value <;> rfl

private theorem opCode_namesApart : NamesApart OpCode := by
  intro value
  cases value <;> rfl

theorem optionalText_reads {limit : DepthLimit} :
    Reads limit (NullableForm TextForm) (nullable? text?) := by
  refine nullable_reads text_reads ?_
  rintro value json rfl
  exact Json.noConfusion

section Reading

variable (limit : DepthLimit)

theorem TypeReference.reads : Reads limit TypeReference.WrittenAs TypeReference.ofJson? := by
  intro reference json allowed form
  obtain ⟨record, read, found⟩ := form.record ["full_name", "assembly"] rfl (by decide) allowed
  simp only [TypeReference.forms, List.forall_mem_cons] at found
  obtain ⟨fullName, assembly, _⟩ := found
  simp [TypeReference.ofJson?, read, fullName.read text_reads,
    assembly.readDefaulted optionalText_reads]

theorem typeReferences_read :
    Reads limit (ListForm TypeReference.WrittenAs) (list? TypeReference.ofJson?) :=
  list_reads (TypeReference.reads _)

theorem MethodReference.reads : Reads limit MethodReference.WrittenAs MethodReference.ofJson? := by
  intro reference json allowed form
  obtain ⟨record, read, found⟩ := form.record
    ["declaring_type", "name", "full_name", "return_type", "parameters"] rfl (by decide) allowed
  simp only [MethodReference.forms, List.forall_mem_cons] at found
  obtain ⟨declaringType, name, fullName, returnType, parameters, _⟩ := found
  simp [MethodReference.ofJson?, read, declaringType.read (TypeReference.reads _),
    name.read text_reads, fullName.read text_reads, returnType.read (TypeReference.reads _),
    parameters.readDefaulted (typeReferences_read _)]

theorem FieldReference.reads : Reads limit FieldReference.WrittenAs FieldReference.ofJson? := by
  intro reference json allowed form
  obtain ⟨record, read, found⟩ := form.record
    ["declaring_type", "name", "full_name", "field_type"] rfl (by decide) allowed
  simp only [FieldReference.forms, List.forall_mem_cons] at found
  obtain ⟨declaringType, name, fullName, fieldType, _⟩ := found
  simp [FieldReference.ofJson?, read, declaringType.read (TypeReference.reads _),
    name.read text_reads, fullName.read text_reads, fieldType.read (TypeReference.reads _)]

/-- The depth of an operand is checked once for the whole of it. -/
theorem Operand.reads : Reads limit Operand.WrittenAs (Operand.ofJson? limit) := by
  intro operand json allowed form
  rw [Operand.ofJson?, if_pos allowed]
  cases operand with
  | type reference =>
      obtain ⟨untagged, tagged, written⟩ := StructureForm.tagged form
        (show "kind" ∉ ["full_name", "assembly"] by decide)
      simp [tagged, TypeReference.reads none rfl written]
  | field reference =>
      obtain ⟨untagged, tagged, written⟩ := StructureForm.tagged form
        (show "kind" ∉ ["declaring_type", "name", "full_name", "field_type"] by decide)
      simp [tagged, FieldReference.reads none rfl written]
  | method reference =>
      obtain ⟨untagged, tagged, written⟩ := StructureForm.tagged form
        (show "kind" ∉ ["declaring_type", "name", "full_name", "return_type", "parameters"] by
          decide)
      simp [tagged, MethodReference.reads none rfl written]

theorem Instruction.reads : Reads limit Instruction.WrittenAs (Instruction.ofJson? limit) := by
  intro instruction json allowed form
  obtain ⟨record, read, found⟩ := form.record ["opcode", "operand"] rfl (by decide) allowed
  simp only [Instruction.forms, List.forall_mem_cons] at found
  obtain ⟨opcode, operand, _⟩ := found
  simp [Instruction.ofJson?, read, opcode.read (enum_reads opCode_namesApart),
    operand.readDefaulted (nullable_reads (Operand.reads _) StructureForm.ne_null)]

theorem MethodBody.reads : Reads limit MethodBody.WrittenAs (MethodBody.ofJson? limit) := by
  intro body json allowed form
  obtain ⟨record, read, found⟩ :=
    form.record ["local_variable_types", "instructions"] rfl (by decide) allowed
  simp only [MethodBody.forms, List.forall_mem_cons] at found
  obtain ⟨localVariableTypes, instructions, _⟩ := found
  simp [MethodBody.ofJson?, read, localVariableTypes.readDefaulted (typeReferences_read _),
    instructions.readDefaulted (elements_read Instruction.reads)]

theorem FieldDefinition.reads : Reads limit FieldDefinition.WrittenAs FieldDefinition.ofJson? := by
  intro field json allowed form
  obtain ⟨record, read, found⟩ :=
    form.record ["name", "full_name", "field_type", "visibility"] rfl (by decide) allowed
  simp only [FieldDefinition.forms, List.forall_mem_cons] at found
  obtain ⟨name, fullName, fieldType, visibility, _⟩ := found
  simp [FieldDefinition.ofJson?, read, name.read text_reads, fullName.read text_reads,
    fieldType.read (TypeReference.reads _),
    visibility.readDefaulted (enum_reads visibility_namesApart)]

theorem MethodDefinition.reads :
    Reads limit MethodDefinition.WrittenAs (MethodDefinition.ofJson? limit) := by
  intro method json allowed form
  obtain ⟨record, read, found⟩ := form.record
    ["declaring_type", "name", "full_name", "return_type", "parameters", "generic_parameters",
      "visibility", "is_constructor", "is_getter", "is_setter", "body"] rfl (by decide) allowed
  simp only [MethodDefinition.forms, List.forall_mem_cons] at found
  obtain ⟨declaringType, name, fullName, returnType, parameters, genericParameters, visibility,
    isConstructor, isGetter, isSetter, body, _⟩ := found
  simp [MethodDefinition.ofJson?, read, declaringType.read (TypeReference.reads _),
    name.read text_reads, fullName.read text_reads, returnType.read (TypeReference.reads _),
    parameters.readDefaulted (typeReferences_read _),
    genericParameters.readDefaulted (typeReferences_read _),
    visibility.readDefaulted (enum_reads visibility_namesApart),
    isConstructor.readDefaulted bool_reads, isGetter.readDefaulted bool_reads,
    isSetter.readDefaulted bool_reads,
    body.readDefaulted (nullable_reads (MethodBody.reads _) StructureForm.ne_null)]

theorem PropertyDefinition.reads :
    Reads limit PropertyDefinition.WrittenAs PropertyDefinition.ofJson? := by
  intro property json allowed form
  obtain ⟨record, read, found⟩ := form.record
    ["name", "full_name", "property_type", "visibility", "getter", "setter"] rfl (by decide) allowed
  simp only [PropertyDefinition.forms, List.forall_mem_cons] at found
  obtain ⟨name, fullName, propertyType, visibility, getter, setter, _⟩ := found
  simp [PropertyDefinition.ofJson?, read, name.read text_reads, fullName.read text_reads,
    propertyType.read (TypeReference.reads _),
    visibility.readDefaulted (enum_reads visibility_namesApart),
    getter.readDefaulted optionalText_reads, setter.readDefaulted optionalText_reads]

theorem TypeDefinition.reads :
    Reads limit TypeDefinition.WrittenAs (TypeDefinition.ofJson? limit) := by
  intro definition json allowed form
  obtain ⟨record, read, found⟩ := form.record
    ["full_name", "kind", "visibility", "fields", "methods", "properties"] rfl (by decide) allowed
  simp only [TypeDefinition.forms, List.forall_mem_cons] at found
  obtain ⟨fullName, kind, visibility, fields, methods, properties, _⟩ := found
  simp [TypeDefinition.ofJson?, read, fullName.read text_reads,
    kind.readDefaulted (enum_reads typeKind_namesApart),
    visibility.readDefaulted (enum_reads visibility_namesApart),
    fields.readDefaulted (list_reads (FieldDefinition.reads _)),
    methods.readDefaulted (elements_read MethodDefinition.reads),
    properties.readDefaulted (list_reads (PropertyDefinition.reads _))]

theorem Assembly.reads : Reads limit Assembly.WrittenAs (Assembly.ofJson? limit) := by
  intro assembly json allowed form
  obtain ⟨record, read, found⟩ := form.record ["name", "types"] rfl (by decide) allowed
  simp only [Assembly.forms, List.forall_mem_cons] at found
  obtain ⟨name, types, _⟩ := found
  simp [Assembly.ofJson?, read, name.read text_reads,
    types.readDefaulted (elements_read TypeDefinition.reads)]

theorem Metadata.reads : Reads limit Metadata.WrittenAs (Metadata.ofJson? limit) := by
  intro metadata json allowed form
  obtain ⟨record, read, found⟩ := form.record ["assemblies"] rfl (by decide) allowed
  simp only [Metadata.forms, List.forall_mem_cons] at found
  simp [Metadata.ofJson?, read, found.1.readDefaulted (elements_read Assembly.reads)]

end Reading

/-! ## Writing -/

theorem listForm_ofList {α : Type} {Form : α → Json → Prop} {encode : α → Json}
    (written : ∀ value, Form value (encode value)) (values : List α) :
    ListForm Form values (ofList encode values) := by
  refine .array ?_
  rw [List.forall₂_map_right_iff, List.forall₂_same]
  exact fun value _ => written value

private theorem nullableForm_ofOption {α : Type} {Form : α → Json → Prop} {encode : α → Json}
    (written : ∀ value, Form value (encode value)) (value : Option α) :
    NullableForm Form value (ofOption encode value) := by
  cases value with
  | none => exact .absent
  | some value => exact .present (written value)

private theorem given_presentField {α : Type} {Form : α → Json → Prop} {encode : α → Json}
    (written : ∀ value, Form value (encode value)) (name : String) (value : Option α) :
    Given [.defaulted name none (NullableForm Form) value] (presentField name encode value) := by
  cases value with
  | none => exact .leftOut rfl .nil
  | some value => exact .written (.present (written value)) .nil

private theorem textForm_text (value : String) : TextForm value (.text value) := rfl

theorem TypeReference.given (reference : TypeReference) :
    Given reference.forms reference.jsonFields :=
  .written rfl (given_presentField textForm_text "assembly" reference.assembly)

theorem TypeReference.writtenAs_toJson (reference : TypeReference) :
    reference.WrittenAs reference.toJson :=
  .ofFields reference.given

theorem MethodReference.given (reference : MethodReference) :
    Given reference.forms reference.jsonFields := by
  refine .written (TypeReference.writtenAs_toJson _) (.written rfl (.written rfl
    (.written (TypeReference.writtenAs_toJson _) (.written ?_ .nil))))
  exact listForm_ofList TypeReference.writtenAs_toJson _

theorem FieldReference.given (reference : FieldReference) :
    Given reference.forms reference.jsonFields :=
  .written (TypeReference.writtenAs_toJson _) (.written rfl (.written rfl
    (.written (TypeReference.writtenAs_toJson _) .nil)))

theorem Operand.writtenAs_toJson (operand : Operand) : operand.WrittenAs operand.toJson := by
  cases operand with
  | type reference => exact .ofFields (.written rfl reference.given)
  | field reference => exact .ofFields (.written rfl reference.given)
  | method reference => exact .ofFields (.written rfl reference.given)

theorem Instruction.writtenAs_toJson (instruction : Instruction) :
    instruction.WrittenAs instruction.toJson :=
  .ofFields (.written rfl (given_presentField Operand.writtenAs_toJson "operand" _))

theorem MethodBody.writtenAs_toJson (body : MethodBody) : body.WrittenAs body.toJson :=
  .ofFields (.written (listForm_ofList TypeReference.writtenAs_toJson _)
    (.written (listForm_ofList Instruction.writtenAs_toJson _) .nil))

theorem FieldDefinition.writtenAs_toJson (field : FieldDefinition) :
    field.WrittenAs field.toJson :=
  .ofFields (.written rfl (.written rfl (.written (TypeReference.writtenAs_toJson _)
    (.written rfl .nil))))

theorem MethodDefinition.writtenAs_toJson (method : MethodDefinition) :
    method.WrittenAs method.toJson := by
  have types := listForm_ofList TypeReference.writtenAs_toJson
  refine .ofFields (.written (TypeReference.writtenAs_toJson _) (.written rfl (.written rfl
    (.written (TypeReference.writtenAs_toJson _) (.written (types _) (.written (types _)
    (.written rfl (.written rfl (.written rfl (.written rfl (.written ?_ .nil)))))))))))
  exact nullableForm_ofOption MethodBody.writtenAs_toJson _

theorem PropertyDefinition.writtenAs_toJson (property : PropertyDefinition) :
    property.WrittenAs property.toJson := by
  have accessor := nullableForm_ofOption textForm_text
  exact .ofFields (.written rfl (.written rfl (.written (TypeReference.writtenAs_toJson _)
    (.written rfl (.written (accessor _) (.written (accessor _) .nil))))))

theorem TypeDefinition.writtenAs_toJson (definition : TypeDefinition) :
    definition.WrittenAs definition.toJson :=
  .ofFields (.written rfl (.written rfl (.written rfl
    (.written (listForm_ofList FieldDefinition.writtenAs_toJson _)
    (.written (listForm_ofList MethodDefinition.writtenAs_toJson _)
    (.written (listForm_ofList PropertyDefinition.writtenAs_toJson _) .nil))))))

theorem Assembly.writtenAs_toJson (assembly : Assembly) : assembly.WrittenAs assembly.toJson :=
  .ofFields (.written rfl (.written (listForm_ofList TypeDefinition.writtenAs_toJson _) .nil))

theorem Metadata.writtenAs_toJson (metadata : Metadata) : metadata.WrittenAs metadata.toJson :=
  .ofFields (.written (listForm_ofList Assembly.writtenAs_toJson _) .nil)

/-! ## Depth of the encoding -/

section Fits

variable (levels : Nat)

theorem fits_text (value : String) : (Json.text value).fits levels := by simp [Json.text, fits]

private theorem fits_ofOption {α : Type} {encode : α → Json}
    (each : ∀ value, (encode value).fits levels)
    (value : Option α) : (ofOption encode value).fits levels := by
  cases value with
  | none => simp [ofOption, fits]
  | some value => exact each value

private theorem fits_presentField {α : Type} {encode : α → Json}
    (each : ∀ value, (encode value).fits levels) (name : String) (value : Option α) :
    ∀ field ∈ presentField name encode value, field.2.fits levels := by
  cases value with
  | none => exact fun _ there => absurd there List.not_mem_nil
  | some value => exact List.forall_mem_singleton.mpr (each value)

private theorem TypeReference.jsonFields_fit (reference : TypeReference) :
    ∀ field ∈ reference.jsonFields, field.2.fits levels :=
  List.forall_mem_cons.mpr ⟨fits_text .., fits_presentField levels (fits_text levels) _ _⟩

theorem TypeReference.toJson_fits (reference : TypeReference) :
    reference.toJson.fits (levels + 1) :=
  fits_ofFields.mpr (reference.jsonFields_fit levels)

theorem typeReferences_fit (references : List TypeReference) :
    (ofList TypeReference.toJson references).fits (levels + 2) :=
  fits_ofList.mpr fun reference _ => reference.toJson_fits levels

theorem Operand.toJson_fits (operand : Operand) : operand.toJson.fits (levels + 3) := by
  cases operand with
  | type reference =>
      exact fits_ofFields.mpr (List.forall_mem_cons.mpr ⟨fits_text .., reference.jsonFields_fit _⟩)
  | field reference =>
      refine fits_ofFields.mpr ?_
      simp [FieldReference.jsonFields, fits_text, TypeReference.toJson_fits]
  | method reference =>
      refine fits_ofFields.mpr ?_
      simp [MethodReference.jsonFields, fits_text, TypeReference.toJson_fits, typeReferences_fit]

theorem Instruction.toJson_fits (instruction : Instruction) :
    instruction.toJson.fits (levels + 4) :=
  fits_ofFields.mpr (List.forall_mem_cons.mpr
    ⟨fits_text .., fits_presentField _ (Operand.toJson_fits levels) _ _⟩)

theorem MethodBody.toJson_fits (body : MethodBody) : body.toJson.fits (levels + 6) := by
  refine fits_ofFields.mpr ?_
  simp [fits_ofList, typeReferences_fit, Instruction.toJson_fits]

theorem MethodDefinition.toJson_fits (method : MethodDefinition) :
    method.toJson.fits (levels + 7) := by
  refine fits_ofFields.mpr ?_
  simp [fits_text, fits, ofEnum, TypeReference.toJson_fits, typeReferences_fit,
    fits_ofOption (levels + 6) (MethodBody.toJson_fits levels)]

theorem FieldDefinition.toJson_fits (field : FieldDefinition) :
    field.toJson.fits (levels + 2) := by
  refine fits_ofFields.mpr ?_
  simp [fits_text, ofEnum, TypeReference.toJson_fits]

theorem PropertyDefinition.toJson_fits (property : PropertyDefinition) :
    property.toJson.fits (levels + 2) := by
  refine fits_ofFields.mpr ?_
  simp [fits_text, ofEnum, TypeReference.toJson_fits,
    fits_ofOption (levels + 1) (fits_text (levels + 1))]

theorem TypeDefinition.toJson_fits (definition : TypeDefinition) :
    definition.toJson.fits (levels + 9) := by
  refine fits_ofFields.mpr ?_
  simp [fits_text, ofEnum, fits_ofList, FieldDefinition.toJson_fits, MethodDefinition.toJson_fits,
    PropertyDefinition.toJson_fits]

theorem Assembly.toJson_fits (assembly : Assembly) : assembly.toJson.fits (levels + 11) := by
  refine fits_ofFields.mpr ?_
  simp [fits_text, fits_ofList, TypeDefinition.toJson_fits]

theorem Metadata.toJson_fits (metadata : Metadata) : metadata.toJson.fits (levels + 13) := by
  refine fits_ofFields.mpr ?_
  simp [fits_ofList, Assembly.toJson_fits]

end Fits

theorem Metadata.parse?_document {metadata : Metadata} {json : Json} {text : String}
    (form : metadata.WrittenAs json) (fits : json.fits 127)
    (document : DocumentText json text.toList) : Metadata.parse? text = some metadata := by
  rw [Metadata.parse?, Json.parse?, parseChars?_document document]
  exact Metadata.reads .ofText fits form

/-- Every form of metadata is read as the metadata: a value at hand whatever it holds, and a value from
a text if it nests no deeper than texts may. The encoding is such a form, so reading undoes writing. -/
theorem metadata_forms_read (metadata : Metadata) :
    (∀ json, metadata.WrittenAs json → Metadata.ofJson? none json = some metadata ∧
      (∀ levels, json.fits levels → Metadata.ofJson? (some levels) json = some metadata) ∧
      ∀ text : String, json.fits 127 → DocumentText json text.toList →
        Metadata.parse? text = some metadata) ∧
    metadata.WrittenAs metadata.toJson ∧ Metadata.ofJson? none metadata.toJson = some metadata ∧
    Metadata.ofJson? .ofText metadata.toJson = some metadata := by
  have written := metadata.writtenAs_toJson
  refine ⟨fun json form => ⟨?_, fun levels fits => ?_, fun text => Metadata.parse?_document form⟩,
    written, ?_, ?_⟩
  · exact Metadata.reads none rfl form
  · exact Metadata.reads (some levels) fits form
  · exact Metadata.reads none rfl written
  · exact Metadata.reads .ofText (metadata.toJson_fits 114) written

/-- A method that reads a field, in a type of which nothing else is said. Derived types and those of the
assembly may use it. -/
def totalMetadata : Metadata :=
  let order : TypeReference := { fullName := "Shop.Order" }
  let money : TypeReference := { fullName := "Shop.Money", assembly := some "bank" }
  let total : FieldReference := .ofName order "_total" money
  let method : MethodDefinition :=
    { MethodDefinition.ofSignature order "Total" money [] with
      visibility := .protInternal
      body := some { instructions := [{ opcode := .ldfld, operand := some (.field total) }] } }
  { assemblies := [{ name := "shop", types := [{ fullName := "Shop.Order", methods := [method] }] }] }

/-- The same with the keys of objects reversed, one that is not known, arrays for some objects and
defaults left out. -/
def totalJson : Json :=
  let reversed (fields : List (String × Json)) : Json := .ofFields fields.reverse
  let order : Json := .array [.text "Shop.Order", .null]
  let money : Json := reversed [("full_name", .text "Shop.Money"), ("assembly", .text "bank")]
  let total : Json := reversed
    [("kind", .text "field"), ("declaring_type", order), ("name", .text "_total"),
      ("full_name", .text "Shop.Order::_total"), ("field_type", money)]
  let body : Json := .array [.array [], .array [.array [.text "ldfld", total]]]
  let method : Json := reversed
    [("declaring_type", order), ("name", .text "Total"), ("full_name", .text "Shop.Order::Total()"),
      ("return_type", money), ("visibility", .text "protected_internal"), ("body", body)]
  let type : Json := reversed
    [("full_name", .text "Shop.Order"), ("methods", .array [method]), ("remark", .array [])]
  .array [.array [.array [.text "shop", .array [type]]]]

theorem metadata_forms_read_total :
    totalMetadata.WrittenAs totalJson ∧ Metadata.ofJson? none totalJson = some totalMetadata ∧
      Metadata.parse? (totalJson.pretty ++ "\n") = some totalMetadata := by
  have order : ({ fullName := "Shop.Order" } : TypeReference).WrittenAs
      (.array [.text "Shop.Order", .null]) :=
    .array (.next rfl (.next .absent (.ended (List.forall_mem_nil _))))
  have money : ({ fullName := "Shop.Money", assembly := some "bank" } : TypeReference).WrittenAs
      (.ofFields [("full_name", .text "Shop.Money"), ("assembly", .text "bank")].reverse) :=
    .ofEntries (.written rfl (.written (.present rfl) .nil)) (List.forall_mem_nil _)
      (List.reverse_perm _)
  have written : totalMetadata.WrittenAs totalJson := by
    refine .array (.next (.array (.cons (.array (.next rfl (.next (.array (.cons ?_ .nil))
      (.ended (List.forall_mem_nil _))))) .nil)) (.ended (List.forall_mem_nil _)))
    have unknown : ∀ field ∈ [("remark", Json.array [])], field.1 ∉
        ["full_name", "kind", "visibility", "fields", "methods", "properties"] :=
      List.forall_mem_singleton.mpr (by decide)
    refine .ofEntries (.written rfl (.leftOut rfl (.leftOut rfl (.leftOut rfl
      (.written (.array (.cons ?_ .nil)) (.leftOut rfl .nil)))))) unknown (List.reverse_perm _)
    refine .ofEntries (.written order (.written rfl (.written rfl (.written money (.leftOut rfl
      (.leftOut rfl (.written rfl (.leftOut rfl (.leftOut rfl (.leftOut rfl (.written
        (.present ?_) .nil))))))))))) (List.forall_mem_nil _) (List.reverse_perm _)
    refine .array (.next (.array .nil) (.next (.array (.cons (.array (.next rfl (.next
      (.present ?_) (.ended (List.forall_mem_nil _))))) .nil)) (.ended (List.forall_mem_nil _))))
    exact .ofEntries (.written rfl (.written order (.written rfl (.written rfl
      (.written money .nil))))) (List.forall_mem_nil _) (List.reverse_perm _)
  obtain ⟨read, _, loaded⟩ := (metadata_forms_read totalMetadata).1 totalJson written
  exact ⟨written, read, loaded _ (by decide +kernel) (pretty_document totalJson)⟩

example : ([.pub, .internal, .prot, .protInternal, .privProt, .priv] : List Visibility).map
      Enumeration.name =
    ["public", "internal", "protected", "protected_internal", "private_protected", "private"] := by
  decide

example : ([.classType, .interfaceType, .structType, .enumType, .delegateType, .unknown] :
      List TypeKind).map Enumeration.name =
    ["class", "interface", "struct", "enum", "delegate", "unknown"] := by
  decide

example : ([.call, .callvirt, .newobj, .ldftn, .ldvirtftn, .ldfld, .ldflda, .stfld, .ldsfld, .ldsflda,
      .stsfld, .box, .castclass, .isinst, .newarr, .ldtoken, .initobj, .ret, .other] :
      List OpCode).map Enumeration.name =
    ["call", "callvirt", "newobj", "ldftn", "ldvirtftn", "ldfld", "ldflda", "stfld", "ldsfld",
      "ldsflda", "stsfld", "box", "castclass", "isinst", "newarr", "ldtoken", "initobj", "ret",
      "other"] := by
  decide

end MemberGraph
