import MemberGraph.Report.Query
import MemberGraph.Proofs.JsonForms
import MemberGraph.Proofs.JsonPrinting

/-!
A report that is printed as JSON can be read back without loss. The printed text is a document of the
grammar, its value is the JSON form of the report, and decoding that gives the report again.
-/

set_option autoImplicit false

namespace MemberGraph

namespace Json

/-! ## Decoding what was encoded -/

variable {α : Type} {encode : α → Json} {decode : Json → Option α}

theorem record?_ofFields {names : List String} {fields : List (String × Json)}
    (declared : ∀ field ∈ fields, field.1 ∈ names) (distinct : (fields.map (·.1)).Nodup) :
    (ofFields fields).record? names = some ⟨fields⟩ := by
  have known : knownFields names (members fields) = fields := by
    rw [knownFields_members]
    exact List.filter_eq_self.mpr (by simpa using declared)
  have texts : (members fields).all (·.1.isSome) := by simp [members]
  rw [show ofFields fields = .object (members fields) from rfl]
  simp only [record?, known]
  exact if_pos ⟨texts, distinct⟩

private theorem text?_text (value : String) : text? (text value) = some value := rfl

theorem list?_ofList (back : ∀ value, decode (encode value) = some value) (values : List α) :
    list? decode (ofList encode values) = some values := by
  rw [ofList, list?]
  induction values with
  | nil => rfl
  | cons value rest ih => simp [back, ih]

private theorem nullable?_present {json : Json} {value : α} (present : json ≠ .null)
    (decoded : decode json = some value) : nullable? decode json = some (some value) := by
  simp [nullable?, decoded]

theorem nullable?_text (value : Option String) :
    nullable? text? (ofOption text value) = some value := by
  cases value with
  | none => rfl
  | some value => exact nullable?_present (by simp [ofOption, text]) rfl

theorem required_of_lookup {name : String} {fields : List (String × Json)} {json : Json} {value : α}
    (found : fields.lookup name = some json) (decoded : decode json = some value) :
    Record.required ⟨fields⟩ name decode = some value := by
  rw [Record.required, found, Option.bind_some, decoded]

private theorem withDefault_of_lookup {name : String} {fields : List (String × Json)}
    (back : ∀ value, nullable? decode (encode value) = some (some value)) (value : Option α)
    (found : fields.lookup name = value.map encode) :
    Record.withDefault ⟨fields⟩ name none (nullable? decode) = some value := by
  rw [Record.withDefault, found]
  cases value with
  | none => rfl
  | some value => exact back value

end Json

/-! ## Reports -/

theorem Statistics.ofJson?_toJson (statistics : Statistics) :
    ofJson? statistics.toJson = some statistics := by
  rw [toJson, ofJson?, Json.record?_ofFields (by simp) (by simp)]
  rfl

theorem Summary.ofJson?_toJson (summary : Summary) : ofJson? summary.toJson = some summary := by
  have statistics := Statistics.ofJson?_toJson summary.statistics
  rw [toJson, ofJson?, Json.record?_ofFields (by simp) (by simp)]
  iterate 7 refine Option.bind_eq_some_iff.mpr ⟨_, rfl, ?_⟩
  exact Option.bind_eq_some_iff.mpr ⟨_, Json.required_of_lookup rfl statistics, rfl⟩

theorem TypeItem.ofJson?_toJson (item : TypeItem) : ofJson? item.toJson = some item := by
  rw [toJson, ofJson?, Json.record?_ofFields (by simp) (by simp)]
  rfl

theorem TypeList.ofJson?_toJson (list : TypeList) : ofJson? list.toJson = some list := by
  have items := Json.list?_ofList TypeItem.ofJson?_toJson list.items
  rw [toJson, ofJson?, Json.record?_ofFields (by simp) (by simp)]
  refine Option.bind_eq_some_iff.mpr ⟨_, rfl, ?_⟩
  exact Option.bind_eq_some_iff.mpr ⟨_, Json.required_of_lookup rfl items, rfl⟩

theorem DependencyItem.ofJson?_toJson (item : DependencyItem) : ofJson? item.toJson = some item := by
  have apart : Json.NamesApart DependencyKind := by
    rintro (use | _)
    · cases use <;> rfl
    · rfl
  have kind : Json.enum? (Json.ofEnum item.kind) = some item.kind := apart item.kind
  rw [toJson, ofJson?, Json.record?_ofFields (by simp) (by simp)]
  refine Option.bind_eq_some_iff.mpr ⟨_, rfl, ?_⟩
  exact Option.bind_eq_some_iff.mpr ⟨_, Json.required_of_lookup rfl kind, rfl⟩

theorem PropertyLinkNames.ofJson?_toJson (links : PropertyLinkNames) :
    ofJson? links.toJson = some links := by
  have getter := Json.nullable?_text links.getter
  have setter := Json.nullable?_text links.setter
  have backing := Json.nullable?_text links.backingField
  rw [toJson, ofJson?, Json.record?_ofFields (by simp) (by simp)]
  refine Option.bind_eq_some_iff.mpr ⟨_, rfl, Option.bind_eq_some_iff.mpr ⟨_, getter, ?_⟩⟩
  exact Option.bind_eq_some_iff.mpr ⟨_, setter, Option.bind_eq_some_iff.mpr ⟨_, backing, rfl⟩⟩

theorem MemberReport.ofJson?_toJson (report : MemberReport) : ofJson? report.toJson = some report := by
  have dependencies := Json.list?_ofList DependencyItem.ofJson?_toJson report.dependencies
  have backwards := Json.list?_ofList DependencyItem.ofJson?_toJson report.backwards
  have links : ∀ links : PropertyLinkNames,
      Json.nullable? PropertyLinkNames.ofJson? links.toJson = some (some links) := fun links =>
    Json.nullable?_present (by simp [PropertyLinkNames.toJson, Json.ofFields]) links.ofJson?_toJson
  have backed : ∀ name, Json.nullable? Json.text? (Json.text name) = some (some name) := fun _ => rfl
  rw [toJson, ofJson?, Json.record?_ofFields]
  · iterate 5 refine Option.bind_eq_some_iff.mpr ⟨_, rfl, ?_⟩
    refine Option.bind_eq_some_iff.mpr ⟨_, Json.required_of_lookup rfl dependencies, ?_⟩
    refine Option.bind_eq_some_iff.mpr ⟨_, Json.required_of_lookup rfl backwards, ?_⟩
    -- The last two fields are left out where there is nothing to write.
    refine Option.bind_eq_some_iff.mpr
      ⟨_, Json.withDefault_of_lookup links report.property ?_, ?_⟩
    · cases report.property <;> cases report.backedProperty <;> rfl
    refine Option.bind_eq_some_iff.mpr
      ⟨_, Json.withDefault_of_lookup backed report.backedProperty ?_, rfl⟩
    cases report.property <;> cases report.backedProperty <;> rfl
  · cases report.property <;> cases report.backedProperty <;> simp [Json.presentField]
  · cases report.property <;> cases report.backedProperty <;> simp [Json.presentField]

theorem CycleList.ofJson?_toJson (list : CycleList) : ofJson? list.toJson = some list := by
  have names : ∀ cycle, Json.list? Json.text? (Json.ofList Json.text cycle) = some cycle :=
    Json.list?_ofList Json.text?_text
  have cycles := Json.list?_ofList names list.cycles
  rw [toJson, ofJson?, Json.record?_ofFields (by simp) (by simp)]
  refine Option.bind_eq_some_iff.mpr ⟨_, rfl, ?_⟩
  exact Option.bind_eq_some_iff.mpr ⟨_, Json.required_of_lookup rfl cycles, rfl⟩

/-! ## Answers -/

def Query.decodeAnswer? : Query → Json → Option Report
  | summary, json => (Summary.ofJson? json).map .summary
  | types _, json => (TypeList.ofJson? json).map .types
  | member _, json => (MemberReport.ofJson? json).map .member
  | cycles, json => (CycleList.ofJson? json).map .cycles

private theorem Project.decodeAnswer?_toJson {project : Project} {query : Query} {report : Report}
    (answered : project.answer query = .ok report) :
    query.decodeAnswer? report.toJson = some report := by
  cases query with
  | summary =>
      cases answered
      rw [Report.toJson, Query.decodeAnswer?, Summary.ofJson?_toJson]
      rfl
  | types withStubs =>
      cases answered
      rw [Report.toJson, Query.decodeAnswer?, TypeList.ofJson?_toJson]
      rfl
  | member fullName =>
      simp only [answer] at answered
      split at answered
      · cases answered
        rw [Report.toJson, Query.decodeAnswer?, MemberReport.ofJson?_toJson]
        rfl
      · cases answered
  | cycles =>
      cases answered
      rw [Report.toJson, Query.decodeAnswer?, CycleList.ofJson?_toJson]
      rfl

/-- Only a member that is not there leaves a question without an answer. -/
theorem Project.answer_of_known {project : Project} {query : Query}
    (known : ∀ fullName, query = .member fullName →
      (project.architecture.memberNamed? fullName).isSome) :
    ∃ report, project.answer query = .ok report := by
  cases query with
  | summary => exact ⟨_, rfl⟩
  | types withStubs => exact ⟨_, rfl⟩
  | member fullName =>
      obtain ⟨member, found⟩ := Option.isSome_iff_exists.mp (known fullName rfl)
      refine ⟨.member (project.architecture.catalog.memberReport member), ?_⟩
      simp only [answer, member?, found, Option.map_some]
  | cycles => exact ⟨_, rfl⟩

/-- Every answer that is printed as JSON is one value of the grammar and a line end. It is read as
the JSON form of the answer and decoded as the answer itself. -/
theorem printed_answers_read_back (project : Project) (query : Query)
    (known : ∀ fullName, query = .member fullName →
      (project.architecture.memberNamed? fullName).isSome) :
    ∃ report document, project.answer query = .ok report ∧
      project.display query true = .ok (document ++ "\n") ∧
      Json.ValueText report.toJson document.toList ∧
      Json.parse? (document ++ "\n") = some report.toJson ∧
      query.decodeAnswer? report.toJson = some report := by
  obtain ⟨report, answered⟩ := Project.answer_of_known known
  refine ⟨report, report.toJson.pretty, answered, ?_, ?_, ?_, ?_⟩
  · rw [Project.display, answered]
    rfl
  · rw [Json.pretty, String.toList_ofList]
    exact Json.prettyChars_written 0 report.toJson
  · exact Json.parse?_pretty report.toJson
  · exact Project.decodeAnswer?_toJson answered

def escapedName : String := "Shop.Größe::\"C:\\tmp\"\t\x07()"

def escapedProject : Project where
  sourcePath := "shop\n.json"
  architecture :=
    { catalog := (Catalog.empty.addMember escapedName fun id =>
        { id, declaringType := ⟨0⟩, name := "tmp", fullName := escapedName, memberType := ⟨0⟩
          visibility := .pub, isStub := true, role := .method {} }).2
      statistics := {} }

/-- The answer bears the name as it is, and the document bears it with its escapes. -/
theorem printed_answers_read_back_escaped :
    (escapedProject.architecture.memberNamed? escapedName).isSome ∧
      ∃ report document, report.fullName = escapedName ∧
        escapedProject.answer (.member escapedName) = .ok (.member report) ∧
        escapedProject.display (.member escapedName) true = .ok (document ++ "\n") ∧
        "Shop.Größe::\\\"C:\\\\tmp\\\"\\t\\u0007()".toList <:+: document.toList ∧
        Json.ValueText report.toJson document.toList ∧
        Json.parse? (document ++ "\n") = some report.toJson ∧
        (Query.member escapedName).decodeAnswer? report.toJson = some (.member report) := by
  have known : (escapedProject.architecture.memberNamed? escapedName).isSome := by decide +kernel
  have named : (escapedProject.member? escapedName).any (·.fullName = escapedName) := by
    decide +kernel
  have escaped : (escapedProject.display (.member escapedName) true).toOption.any fun text =>
      "Shop.Größe::\\\"C:\\\\tmp\\\"\\t\\u0007()".toList <:+: text.toList.dropLast := by
    decide +kernel
  obtain ⟨report, found, named⟩ := (Option.any_eq_true ..).mp named
  have answered : escapedProject.answer (.member escapedName) = .ok (.member report) := by
    simp only [Project.answer, found]
  obtain ⟨_, document, same, shown, written, parsed, decoded⟩ :=
    printed_answers_read_back escapedProject (.member escapedName) (by rintro _ ⟨rfl⟩; exact known)
  cases Except.ok.inj (answered.symm.trans same)
  rw [shown] at escaped
  refine ⟨known, report, document, of_decide_eq_true named, answered, shown, ?_, written, parsed,
    decoded⟩
  simpa [Except.toOption] using escaped

end MemberGraph
