import MemberGraph.Metadata.Decoding
import Mathlib.Data.List.Perm.Basic
import Mathlib.Data.List.Forall2

/-!
The forms in which a structure may stand in JSON, told without the decoder: an object with its keys in
any order, among others that are not declared, or an array in order of declaration. Fields that hold
their default may be left out. Whatever form is chosen, the decoder finds each field that is given and
misses only fields that hold their default.
-/

set_option autoImplicit false

namespace MemberGraph
namespace Json

/-! ## Forms -/

/-- A field of a structure that holds some value: its name, the JSON values that stand for what it
holds, and whether it may be left out. -/
structure FieldForm where
  name : String
  Written : Json → Prop
  MayBeLeftOut : Prop

def FieldForm.required {α : Type} (name : String) (Form : α → Json → Prop) (value : α) :
    FieldForm :=
  ⟨name, Form value, False⟩

def FieldForm.defaulted {α : Type} (name : String) (default : α) (Form : α → Json → Prop)
    (value : α) : FieldForm :=
  ⟨name, Form value, value = default⟩

/-- A choice of fields to give, with a value for each. -/
inductive Given : List FieldForm → List (String × Json) → Prop where
  | nil : Given [] []
  | written {field : FieldForm} {fields : List FieldForm} {given : List (String × Json)}
      {value : Json} (written : field.Written value) (rest : Given fields given) :
      Given (field :: fields) ((field.name, value) :: given)
  | leftOut {field : FieldForm} {fields : List FieldForm} {given : List (String × Json)}
      (leftOut : field.MayBeLeftOut) (rest : Given fields given) : Given (field :: fields) given

def members (fields : List (String × Json)) : List (Literal × Json) :=
  fields.map fun field => (some field.1, field.2)

/-- The fields from the first on, each at its place; those that are missing at the end may be left
out. -/
inductive ArrayForm : List FieldForm → List Json → Prop where
  | ended {fields : List FieldForm} (leftOut : ∀ field ∈ fields, field.MayBeLeftOut) :
      ArrayForm fields []
  | next {field : FieldForm} {fields : List FieldForm} {value : Json} {values : List Json}
      (written : field.Written value) (rest : ArrayForm fields values) :
      ArrayForm (field :: fields) (value :: values)

/-- The JSON forms of a structure with the given fields. -/
inductive StructureForm (fields : List FieldForm) : Json → Prop where
  | object {given unknown : List (String × Json)} {all : List (Literal × Json)}
      (chosen : Given fields given)
      (undeclared : ∀ field ∈ unknown, field.1 ∉ fields.map (·.name))
      (anyOrder : all.Perm (members (given ++ unknown))) : StructureForm fields (.object all)
  | array {values : List Json} (inOrder : ArrayForm fields values) :
      StructureForm fields (.array values)

def TextForm (value : String) (json : Json) : Prop := json = .string (some value)

def BoolForm (value : Bool) (json : Json) : Prop := json = .bool value

def EnumForm {α : Type} [Enumeration α] (value : α) (json : Json) : Prop :=
  TextForm (Enumeration.name value) json

inductive ListForm {α : Type} (Form : α → Json → Prop) (values : List α) : Json → Prop where
  | array {elements : List Json} (each : List.Forall₂ Form values elements) :
      ListForm Form values (.array elements)

inductive NullableForm {α : Type} (Form : α → Json → Prop) : Option α → Json → Prop where
  | absent : NullableForm Form none .null
  | present {value : α} {json : Json} (form : Form value json) :
      NullableForm Form (some value) json

/-! ## Depth -/

def children : Json → List Json
  | .array elements => elements
  | .object members => members.map (·.2)
  | _ => []

theorem fitsElements_iff {levels : Nat} {elements : List Json} :
    fitsElements levels elements ↔ ∀ element ∈ elements, element.fits levels := by
  induction elements with
  | nil => simp [fitsElements]
  | cons element rest ih => simp [fitsElements, ih]

theorem fitsMembers_iff {levels : Nat} {members : List (Literal × Json)} :
    fitsMembers levels members ↔ ∀ member ∈ members, member.1.isSome ∧ member.2.fits levels := by
  induction members with
  | nil => simp [fitsMembers]
  | cons member rest ih => simp [fitsMembers, ih]

private theorem fits_child {levels : Nat} {json value : Json} (fits : json.fits levels)
    (inside : value ∈ json.children) : value.fits (levels - 1) := by
  cases json with
  | null | bool | number | string => cases inside
  | array elements =>
      cases levels with
      | zero => cases fits
      | succ levels => exact fitsElements_iff.mp fits value inside
  | object members =>
      cases levels with
      | zero => cases fits
      | succ levels =>
          obtain ⟨member, there, rfl⟩ := List.mem_map.mp inside
          exact (fitsMembers_iff.mp fits member there).2

end Json

open Json

theorem DepthLimit.allows_child {limit : DepthLimit} {json value : Json} (allowed : limit.allows json)
    (inside : value ∈ json.children) : (limit.inside 1).allows value := by
  cases limit with
  | none => rfl
  | some levels => exact fits_child allowed inside

private theorem DepthLimit.inside_inside (limit : DepthLimit) (first second : Nat) :
    (limit.inside first).inside second = limit.inside (first + second) := by
  cases limit with
  | none => rfl
  | some levels => simp [DepthLimit.inside, Nat.sub_sub]

namespace Json

/-! ## Reading fields -/

/-- The decoder reads every form of every value, within a limit. -/
def Reads {α : Type} (limit : DepthLimit) (Form : α → Json → Prop) (decode : Json → Option α) :
    Prop :=
  ∀ {value : α} {json : Json}, limit.allows json → Form value json → decode json = some value

/-- A record has the field in one of its forms, or it has not and the field may be left out. -/
inductive FieldForm.Found (limit : DepthLimit) (record : Record) (field : FieldForm) : Prop where
  | given {value : Json} (there : record.fields.lookup field.name = some value)
      (allowed : limit.allows value) (written : field.Written value)
  | leftOut (missing : record.fields.lookup field.name = none) (leftOut : field.MayBeLeftOut)

section Fields

variable {α : Type} {limit : DepthLimit} {record : Record} {name : String} {value : α}
  {Form : α → Json → Prop} {decode : Json → Option α}

theorem FieldForm.Found.read (found : (FieldForm.required name Form value).Found limit record)
    (reads : Reads limit Form decode) : record.required name decode = some value := by
  cases found with
  | given there allowed written =>
      rw [Record.required, show record.fields.lookup name = _ from there]
      exact reads allowed written
  | leftOut missing leftOut => cases leftOut

theorem FieldForm.Found.readDefaulted {default : α}
    (found : (FieldForm.defaulted name default Form value).Found limit record)
    (reads : Reads limit Form decode) :
    record.withDefault name default decode = some value := by
  cases found with
  | given there allowed written =>
      rw [Record.withDefault, show record.fields.lookup name = _ from there]
      exact reads allowed written
  | leftOut missing leftOut =>
      rw [Record.withDefault, show record.fields.lookup name = _ from missing]
      exact congrArg some (Eq.symm leftOut)

end Fields

/-! ## Reading structures -/

private theorem lookup_eq_some_of_mem {fields : List (String × Json)}
    (distinct : (fields.map (·.1)).Nodup)
    {name : String} {value : Json} (there : (name, value) ∈ fields) :
    fields.lookup name = some value := by
  obtain ⟨before, after, rfl⟩ := List.append_of_mem there
  refine List.lookup_eq_some_iff.mpr ⟨before, after, rfl, fun field early => ?_⟩
  rw [List.map_append, List.nodup_append] at distinct
  have different := distinct.2.2 field.1 (List.mem_map_of_mem early) name (by simp)
  simpa using different.symm

private theorem lookup_eq_none_of_not_mem {fields : List (String × Json)} {name : String}
    (missing : name ∉ fields.map (·.1)) : fields.lookup name = none := by
  refine List.lookup_eq_none_iff.mpr fun field there => ?_
  rw [bne_iff_ne]
  rintro rfl
  exact missing (List.mem_map_of_mem there)

namespace Given

variable {fields : List FieldForm} {given : List (String × Json)}

theorem names (chosen : Given fields given) :
    (given.map (·.1)).Sublist (fields.map (·.name)) := by
  induction chosen with
  | nil => exact .slnil
  | written _ _ ih => exact ih.cons_cons _
  | leftOut _ _ ih => exact ih.cons _

theorem field (chosen : Given fields given) (distinct : (fields.map (·.name)).Nodup)
    {field : FieldForm} (declared : field ∈ fields) :
    (∃ value, (field.name, value) ∈ given ∧ field.Written value) ∨
      field.name ∉ given.map (·.1) ∧ field.MayBeLeftOut := by
  induction chosen with
  | nil => cases declared
  | @written first others given value written rest ih =>
      rw [List.map_cons, List.nodup_cons] at distinct
      rcases List.mem_cons.mp declared with rfl | later
      · exact .inl ⟨value, List.mem_cons_self .., written⟩
      · rcases ih distinct.2 later with ⟨value, there, isForm⟩ | ⟨missing, leftOut⟩
        · exact .inl ⟨value, List.mem_cons_of_mem _ there, isForm⟩
        · refine .inr ⟨?_, leftOut⟩
          rw [List.map_cons, List.mem_cons, not_or]
          refine ⟨fun same => distinct.1 ?_, missing⟩
          exact List.mem_map.mpr ⟨field, later, same⟩
  | @leftOut first others given leftOut rest ih =>
      rw [List.map_cons, List.nodup_cons] at distinct
      rcases List.mem_cons.mp declared with rfl | later
      · exact .inr ⟨fun there => distinct.1 (rest.names.subset there), leftOut⟩
      · exact ih distinct.2 later

theorem found (chosen : Given fields given) (distinct : (fields.map (·.name)).Nodup)
    {record : Record} (anyOrder : record.fields.Perm given) {limit : DepthLimit}
    (allowed : ∀ entry ∈ given, limit.allows entry.2) {field : FieldForm}
    (declared : field ∈ fields) : field.Found limit record := by
  have once : (record.fields.map (·.1)).Nodup :=
    (anyOrder.map _).nodup_iff.mpr (chosen.names.nodup distinct)
  rcases chosen.field distinct declared with ⟨value, there, written⟩ | ⟨missing, leftOut⟩
  · exact .given (lookup_eq_some_of_mem once (anyOrder.mem_iff.mpr there)) (allowed _ there) written
  · refine .leftOut (lookup_eq_none_of_not_mem ?_) leftOut
    rwa [(anyOrder.map _).mem_iff]

theorem none_given (leftOut : ∀ field ∈ fields, field.MayBeLeftOut) : Given fields [] := by
  induction fields with
  | nil => exact .nil
  | cons field rest ih =>
      exact .leftOut (leftOut field (List.mem_cons_self ..))
        (ih fun other there => leftOut other (List.mem_cons_of_mem _ there))

end Given

theorem ArrayForm.given {fields : List FieldForm} {values : List Json}
    (inOrder : ArrayForm fields values) :
    values.length ≤ fields.length ∧ Given fields ((fields.map (·.name)).zip values) := by
  induction inOrder with
  | ended leftOut => exact ⟨Nat.zero_le _, by simpa using Given.none_given leftOut⟩
  | next written rest ih => exact ⟨Nat.succ_le_succ ih.1, .written written ih.2⟩

theorem knownFields_members (names : List String) (fields : List (String × Json)) :
    knownFields names (members fields) = fields.filter (·.1 ∈ names) := by
  induction fields with
  | nil => rfl
  | cons field rest ih =>
      simp only [knownFields, members, List.map_cons, List.filterMap_cons, Option.bind_some,
        List.filter_cons] at ih ⊢
      by_cases there : field.1 ∈ names <;> simp [there, ih]

theorem knownFields_append {names : List String} {given unknown : List (String × Json)}
    (declared : ∀ field ∈ given, field.1 ∈ names) (undeclared : ∀ field ∈ unknown, field.1 ∉ names) :
    knownFields names (members (given ++ unknown)) = given := by
  rw [knownFields_members, List.filter_append, List.filter_eq_self.mpr (by simpa using declared),
    List.filter_eq_nil_iff.mpr (by simpa using undeclared), List.append_nil]

theorem StructureForm.record {fields : List FieldForm} {json : Json}
    (form : StructureForm fields json) (names : List String)
    (named : fields.map (·.name) = names) (distinct : names.Nodup) {limit : DepthLimit}
    (allowed : limit.allows json) :
    ∃ record, json.record? names = some record ∧
      ∀ field ∈ fields, field.Found (limit.inside 1) record := by
  subst named
  cases form with
  | @object given unknown all chosen undeclared anyOrder =>
      have declared : ∀ field ∈ given, field.1 ∈ fields.map (·.name) :=
        fun field there => chosen.names.subset (List.mem_map_of_mem there)
      have known : (knownFields (fields.map (·.name)) all).Perm given := by
        have perm : (knownFields (fields.map (·.name)) all).Perm _ := anyOrder.filterMap _
        rwa [show List.filterMap _ _ = _ from knownFields_append declared undeclared] at perm
      have once : ((knownFields (fields.map (·.name)) all).map (·.1)).Nodup :=
        (known.map _).nodup_iff.mpr (chosen.names.nodup distinct)
      have texts : all.all (·.1.isSome) := by
        rw [anyOrder.all_eq, members, List.all_map]
        exact List.all_eq_true.mpr fun _ _ => rfl
      refine ⟨_, if_pos ⟨texts, once⟩, fun field there => ?_⟩
      refine chosen.found distinct known (fun entry listed => ?_) there
      refine DepthLimit.allows_child allowed (List.mem_map.mpr ⟨(some entry.1, entry.2), ?_, rfl⟩)
      exact anyOrder.mem_iff.mpr (List.mem_map_of_mem (List.mem_append_left _ listed))
  | @array values inOrder =>
      obtain ⟨short, chosen⟩ := inOrder.given
      refine ⟨_, if_pos (by simpa using short), fun field there => ?_⟩
      refine chosen.found distinct (.refl _) (fun entry listed => ?_) there
      exact DepthLimit.allows_child allowed (List.of_mem_zip listed).2

theorem StructureForm.ne_null {fields : List FieldForm} {json : Json}
    (form : StructureForm fields json) : json ≠ .null := by
  cases form <;> exact Json.noConfusion

/-! ## Reading values -/

section Values

variable {α : Type} {limit : DepthLimit} {Form : α → Json → Prop} {decode : Json → Option α}

theorem text_reads : Reads limit TextForm text? := by
  rintro value json _ rfl
  rfl

theorem bool_reads : Reads limit BoolForm bool? := by
  rintro value json _ rfl
  rfl

def NamesApart (α : Type) [Enumeration α] : Prop :=
  ∀ value : α, named? (Enumeration.name value) = some value

theorem enum_reads [Enumeration α] (apart : NamesApart α) :
    Reads limit (EnumForm (α := α)) enum? := by
  rintro value json _ rfl
  exact apart value

theorem list_reads (reads : Reads (limit.inside 1) Form decode) :
    Reads limit (ListForm Form) (list? decode) := by
  intro values json allowed form
  cases form with
  | @array elements each =>
      have inside : ∀ element ∈ elements, (limit.inside 1).allows element :=
        fun element there => DepthLimit.allows_child allowed there
      rw [list?]
      clear allowed
      induction each with
      | nil => rfl
      | cons form _ ih =>
          rw [List.forall_mem_cons] at inside
          rw [List.mapM_cons, reads inside.1 form, ih inside.2]
          rfl

/-- The elements of a list that is a field are two containers further inside. -/
theorem elements_read {decodeWithin : DepthLimit → Json → Option α}
    (reads : ∀ limit, Reads limit Form (decodeWithin limit)) :
    Reads (limit.inside 1) (ListForm Form) (list? (decodeWithin (limit.inside 2))) := by
  apply list_reads
  rw [limit.inside_inside 1 1]
  exact reads _

theorem nullable_reads (reads : Reads limit Form decode)
    (present : ∀ {value json}, Form value json → json ≠ .null) :
    Reads limit (NullableForm Form) (nullable? decode) := by
  intro value json allowed form
  cases form with
  | absent => rfl
  | present form =>
      rw [nullable?, reads allowed form]
      · rfl
      · exact present form

end Values

/-! ## Tags -/

def kindField (kind : String) : FieldForm := .required "kind" TextForm kind

private theorem filter_kind {kind : String} {others : List (String × Json)}
    {all : List (Literal × Json)}
    (anyOrder : all.Perm (members (("kind", .string (some kind)) :: others)))
    (apart : ∀ field ∈ others, field.1 ≠ "kind") :
    all.filter (·.1 == some "kind") = [(some "kind", .string (some kind))] := by
  have perm := anyOrder.filter (·.1 == some "kind")
  have none : (members others).filter (·.1 == some "kind") = [] := by
    refine List.filter_eq_nil_iff.mpr (List.forall_mem_map.mpr fun field there => ?_)
    simpa using apart field there
  rw [members, List.map_cons, List.filter_cons_of_pos (by rfl),
    show List.filter _ (List.map _ _) = _ from none] at perm
  exact List.perm_singleton.mp perm

/-- A structure that is tagged with its kind, in any form, is the kind and a form of the structure. -/
theorem StructureForm.tagged {kind : String} {fields : List FieldForm} {json : Json}
    (form : StructureForm (kindField kind :: fields) json) (apart : "kind" ∉ fields.map (·.name)) :
    ∃ untagged, Operand.tagged? json = some (kind, untagged) ∧ StructureForm fields untagged := by
  cases form with
  | @object given unknown all chosen undeclared anyOrder =>
      cases chosen with
      | leftOut impossible => cases impossible
      | @written _ _ given value written rest =>
          cases written
          have others : ∀ field ∈ given ++ unknown, field.1 ≠ "kind" := by
            intro field there same
            rcases List.mem_append.mp there with chosen | added
            · exact apart (same ▸ rest.names.subset (List.mem_map_of_mem chosen))
            · exact undeclared field added (same ▸ List.mem_cons_self ..)
          have only := filter_kind anyOrder others
          have undeclaredToo : ∀ field ∈ ("kind", Json.string (some kind)) :: unknown,
              field.1 ∉ fields.map (·.name) := by
            refine List.forall_mem_cons.mpr ⟨apart, fun field added there => ?_⟩
            exact undeclared field added (List.mem_cons_of_mem _ there)
          refine ⟨.object all, ?_, .object rest undeclaredToo ?_⟩
          · simp only [Operand.tagged?, only]
          · exact anyOrder.trans (List.perm_middle.symm.map _)
  | array inOrder =>
      cases inOrder with
      | ended impossible => cases impossible _ (List.mem_cons_self ..)
      | next written rest =>
          cases written
          exact ⟨_, rfl, .array rest⟩

/-! ## Writing structures -/

theorem StructureForm.ofEntries {fields : List FieldForm}
    {given unknown entries : List (String × Json)} (chosen : Given fields given)
    (undeclared : ∀ field ∈ unknown, field.1 ∉ fields.map (·.name))
    (anyOrder : entries.Perm (given ++ unknown)) : StructureForm fields (.ofFields entries) :=
  .object chosen undeclared (anyOrder.map _)

theorem StructureForm.ofFields {fields : List FieldForm} {given : List (String × Json)}
    (chosen : Given fields given) : StructureForm fields (.ofFields given) := by
  refine .ofEntries chosen (List.forall_mem_nil _) ?_
  rw [List.append_nil]

theorem fits_ofFields {levels : Nat} {fields : List (String × Json)} :
    (ofFields fields).fits (levels + 1) ↔ ∀ field ∈ fields, field.2.fits levels := by
  rw [ofFields, fits, fitsMembers_iff, List.forall_mem_map]
  simp

theorem fits_ofList {α : Type} {levels : Nat} {encode : α → Json} {values : List α} :
    (ofList encode values).fits (levels + 1) ↔ ∀ value ∈ values, (encode value).fits levels := by
  rw [ofList, fits, fitsElements_iff, List.forall_mem_map]

end Json
end MemberGraph
