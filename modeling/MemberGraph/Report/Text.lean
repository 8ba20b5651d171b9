import MemberGraph.Report.Basic

/-!
Reports as text for a terminal.
-/

set_option autoImplicit false

namespace MemberGraph

def unlines (lines : List String) : String := String.join (lines.map (· ++ "\n"))

/-- A count, right-aligned in eight columns. -/
def countColumn (value : Nat) : String :=
  let digits := Nat.repr value
  "".pushn ' ' (8 - digits.length) ++ digits

/-- A text, left-aligned in the given number of columns. -/
def textColumn (width : Nat) (text : String) : String := text.pushn ' ' (width - text.length)

def rule : String := "".pushn '=' 60

def stubMark (isStub : Bool) : String := if isStub then " (stub)" else ""

/-- Lines with their numbers, from one on. -/
def numbered {α : Type} (values : List α) : List (Nat × α) :=
  (List.range' 1 values.length).zip values

def Summary.text (summary : Summary) : String :=
  let statistics := summary.statistics
  unlines
    ["Architecture Summary: " ++ summary.sourcePath,
      rule,
      "  Types:              " ++ countColumn summary.typeCount,
      "  Stub types:         " ++ countColumn summary.stubTypeCount,
      "  Members:            " ++ countColumn summary.memberCount,
      "  Member dependencies:" ++ countColumn summary.memberDependencyCount,
      "  Type dependencies:  " ++ countColumn summary.typeDependencyCount,
      "",
      "  Extraction:",
      "    Methods scanned:       " ++ countColumn statistics.methods,
      "    Signature edges:       " ++ countColumn statistics.signatureDependencies,
      "    Body type edges:       " ++ countColumn statistics.bodyTypeDependencies,
      "    Call edges:            " ++ countColumn statistics.callDependencies,
      "    Unresolved calls:      " ++ countColumn statistics.unresolvedCalls,
      "    Linked accessors:      " ++ countColumn statistics.linkedAccessors,
      "    Unlinked accessors:    " ++ countColumn statistics.unlinkedAccessors,
      "    Backing fields linked: " ++ countColumn statistics.backingFieldsLinked,
      "    Backing field calls:   " ++ countColumn statistics.backingFieldCalls]

def TypeList.text (list : TypeList) : String :=
  unlines
    (["Found " ++ Nat.repr list.items.length ++ " type(s):", ""] ++
      (numbered list.items).flatMap fun (number, item) =>
        [Nat.repr number ++ ". [" ++ item.kind ++ "] " ++ item.fullName ++ stubMark item.isStub,
          "   members: " ++ Nat.repr item.memberCount ++
            ", type dependencies: " ++ Nat.repr item.dependencyCount])

def dependencyLines (title : String) (items : List DependencyItem) : List String :=
  ["", title ++ " (" ++ Nat.repr items.length ++ "):", rule] ++
    items.map fun item =>
      "  " ++ textColumn 18 item.kind.label ++ " " ++ item.origin ++ " -> " ++ item.target ++
        stubMark item.targetIsStub

def MemberReport.text (report : MemberReport) : String :=
  let propertyLines := report.property.elim [] fun links =>
    ["  Getter:        " ++ links.getter.getD "-",
      "  Setter:        " ++ links.setter.getD "-",
      "  Backing field: " ++ links.backingField.getD "-"]
  let backingLines := report.backedProperty.elim [] fun property =>
    ["  Backs property: " ++ property]
  unlines
    (["[" ++ report.memberKind ++ "] " ++ report.fullName ++ stubMark report.isStub,
      "  Declared in: " ++ report.declaringType] ++
      propertyLines ++ backingLines ++
      dependencyLines "Dependencies" report.dependencies ++
      dependencyLines "Backwards dependencies" report.backwards)

def CycleList.text (list : CycleList) : String :=
  if list.cycles.isEmpty then
    unlines ["No type dependency cycles."]
  else
    unlines
      (["Found " ++ Nat.repr list.cycles.length ++ " cycle(s):", ""] ++
        (numbered list.cycles).map fun (number, cycle) =>
          Nat.repr number ++ ". " ++ " <-> ".intercalate cycle)

end MemberGraph
