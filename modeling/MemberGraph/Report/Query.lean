import MemberGraph.Json.Printer
import MemberGraph.Metadata.Decoding
import MemberGraph.Report.Json
import MemberGraph.Report.Text

/-!
Loading a project and asking it for reports.
-/

set_option autoImplicit false

namespace MemberGraph

inductive LoadError where
  /-- There is no text to read. -/
  | unreadable (path : String)
  /-- The text holds no metadata. -/
  | malformed (path : String)
  | build (error : BuildError)
deriving DecidableEq, Repr

/-- The text of a load error, from the outermost cause to the innermost. -/
def LoadError.messages : LoadError → List String
  | .unreadable path => ["Failed to read metadata file: " ++ path]
  | .malformed path => ["Failed to parse metadata JSON: " ++ path]
  | .build error => "Failed to build architecture" :: error.messages

/-- Loads a project from the text found at a path, if one was found. -/
def Project.load (path : String) (content : Option String) (options : Options) :
    Except LoadError Project × Journal :=
  match content with
  | none => (.error (.unreadable path), #[])
  | some text =>
    match Metadata.parse? text with
    | none => (.error (.malformed path), #[])
    | some metadata =>
      let loaded : Analysis :=
        ({} : Analysis).note (.metadataLoaded path metadata.assemblies.length)
      match loaded.build options metadata with
      | (.ok architecture, analysis) => (.ok { sourcePath := path, architecture }, analysis.journal)
      | (.error error, analysis) => (.error (.build error), analysis.journal)

inductive Query where
  | summary
  | types (withStubs : Bool)
  | member (fullName : String)
  | cycles
deriving DecidableEq, Repr

inductive Report where
  | summary (report : Summary)
  | types (report : TypeList)
  | member (report : MemberReport)
  | cycles (report : CycleList)
deriving DecidableEq, Repr

inductive QueryError where
  | memberNotFound (fullName : String)
deriving DecidableEq, Repr

def QueryError.message : QueryError → String
  | .memberNotFound fullName => "Member not found: " ++ fullName

def Project.answer (project : Project) : Query → Except QueryError Report
  | .summary => .ok (.summary project.summary)
  | .types withStubs => .ok (.types (project.types withStubs))
  | .member fullName =>
    match project.member? fullName with
    | some report => .ok (.member report)
    | none => .error (.memberNotFound fullName)
  | .cycles => .ok (.cycles project.cycles)

namespace Report

def toJson : Report → Json
  | summary report => report.toJson
  | types report => report.toJson
  | member report => report.toJson
  | cycles report => report.toJson

def text : Report → String
  | summary report => report.text
  | types report => report.text
  | member report => report.text
  | cycles report => report.text

/-- A report as it is printed, as text or as an indented JSON document. -/
def display (report : Report) (asJson : Bool) : String :=
  if asJson then report.toJson.pretty ++ "\n" else report.text

end Report

def Project.display (project : Project) (query : Query) (asJson : Bool) :
    Except QueryError String :=
  (project.answer query).map (·.display asJson)

end MemberGraph
