import MemberGraph.Report.Basic

/-!
The JSON form of reports, in both directions. The keys stand in the order of declaration; what a
member has only sometimes is left out where it does not apply.
-/

set_option autoImplicit false

namespace MemberGraph

namespace Summary

def toJson (summary : Summary) : Json :=
  .ofFields
    [("source_path", .text summary.sourcePath),
      ("type_count", .count summary.typeCount),
      ("stub_type_count", .count summary.stubTypeCount),
      ("member_count", .count summary.memberCount),
      ("member_dependency_count", .count summary.memberDependencyCount),
      ("type_dependency_count", .count summary.typeDependencyCount),
      ("stats", summary.statistics.toJson)]

def ofJson? (json : Json) : Option Summary := do
  let record ← json.record?
    ["source_path", "type_count", "stub_type_count", "member_count", "member_dependency_count",
      "type_dependency_count", "stats"]
  return {
    sourcePath := ← record.required "source_path" Json.text?
    typeCount := ← record.required "type_count" Json.count?
    stubTypeCount := ← record.required "stub_type_count" Json.count?
    memberCount := ← record.required "member_count" Json.count?
    memberDependencyCount := ← record.required "member_dependency_count" Json.count?
    typeDependencyCount := ← record.required "type_dependency_count" Json.count?
    statistics := ← record.required "stats" Statistics.ofJson? }

end Summary

namespace TypeItem

def toJson (item : TypeItem) : Json :=
  .ofFields
    [("full_name", .text item.fullName),
      ("kind", .text item.kind),
      ("is_stub", .bool item.isStub),
      ("member_count", .count item.memberCount),
      ("dependency_count", .count item.dependencyCount)]

def ofJson? (json : Json) : Option TypeItem := do
  let record ← json.record? ["full_name", "kind", "is_stub", "member_count", "dependency_count"]
  return {
    fullName := ← record.required "full_name" Json.text?
    kind := ← record.required "kind" Json.text?
    isStub := ← record.required "is_stub" Json.bool?
    memberCount := ← record.required "member_count" Json.count?
    dependencyCount := ← record.required "dependency_count" Json.count? }

end TypeItem

namespace TypeList

def toJson (list : TypeList) : Json := .ofFields [("items", .ofList TypeItem.toJson list.items)]

def ofJson? (json : Json) : Option TypeList := do
  let record ← json.record? ["items"]
  return { items := ← record.required "items" (Json.list? TypeItem.ofJson?) }

end TypeList

namespace DependencyItem

def toJson (item : DependencyItem) : Json :=
  .ofFields
    [("kind", .ofEnum item.kind),
      ("origin", .text item.origin),
      ("target", .text item.target),
      ("target_is_stub", .bool item.targetIsStub)]

def ofJson? (json : Json) : Option DependencyItem := do
  let record ← json.record? ["kind", "origin", "target", "target_is_stub"]
  return {
    kind := ← record.required "kind" Json.enum?
    origin := ← record.required "origin" Json.text?
    target := ← record.required "target" Json.text?
    targetIsStub := ← record.required "target_is_stub" Json.bool? }

end DependencyItem

namespace PropertyLinkNames

def toJson (links : PropertyLinkNames) : Json :=
  .ofFields
    [("getter", .ofOption .text links.getter),
      ("setter", .ofOption .text links.setter),
      ("backing_field", .ofOption .text links.backingField)]

def ofJson? (json : Json) : Option PropertyLinkNames := do
  let record ← json.record? ["getter", "setter", "backing_field"]
  return {
    getter := ← record.withDefault "getter" none (Json.nullable? Json.text?)
    setter := ← record.withDefault "setter" none (Json.nullable? Json.text?)
    backingField := ← record.withDefault "backing_field" none (Json.nullable? Json.text?) }

end PropertyLinkNames

namespace MemberReport

def toJson (report : MemberReport) : Json :=
  .ofFields
    ([("full_name", .text report.fullName),
      ("member_kind", .text report.memberKind),
      ("declaring_type", .text report.declaringType),
      ("is_stub", .bool report.isStub),
      ("dependencies", .ofList DependencyItem.toJson report.dependencies),
      ("backwards_dependencies", .ofList DependencyItem.toJson report.backwards)] ++
      Json.presentField "property" PropertyLinkNames.toJson report.property ++
      Json.presentField "backed_property" .text report.backedProperty)

def ofJson? (json : Json) : Option MemberReport := do
  let record ← json.record?
    ["full_name", "member_kind", "declaring_type", "is_stub", "dependencies",
      "backwards_dependencies", "property", "backed_property"]
  return {
    fullName := ← record.required "full_name" Json.text?
    memberKind := ← record.required "member_kind" Json.text?
    declaringType := ← record.required "declaring_type" Json.text?
    isStub := ← record.required "is_stub" Json.bool?
    dependencies := ← record.required "dependencies" (Json.list? DependencyItem.ofJson?)
    backwards := ← record.required "backwards_dependencies" (Json.list? DependencyItem.ofJson?)
    property := ← record.withDefault "property" none (Json.nullable? PropertyLinkNames.ofJson?)
    backedProperty := ← record.withDefault "backed_property" none (Json.nullable? Json.text?) }

end MemberReport

namespace CycleList

def toJson (list : CycleList) : Json :=
  .ofFields [("cycles", .ofList (Json.ofList Json.text) list.cycles)]

def ofJson? (json : Json) : Option CycleList := do
  let record ← json.record? ["cycles"]
  return { cycles := ← record.required "cycles" (Json.list? (Json.list? Json.text?)) }

end CycleList

end MemberGraph
