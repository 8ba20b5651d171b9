import MemberGraph.Metadata.Definition

/-!
The journal of an analysis: what was noticed on the way, in order. An event is a value of its own;
its level, its message and its fields are views of it.
-/

set_option autoImplicit false

namespace MemberGraph

inductive EventLevel where
  | trace | debug | info | warn | error
deriving DecidableEq, Repr

inductive EventValue where
  | text (value : String)
  | count (value : Nat)
deriving DecidableEq, Repr

/-- Something noticed during an analysis. Types and members are given by full name. -/
inductive Event where
  | metadataLoaded (path : String) (assemblies : Nat)
  | duplicateType (typeName : String)
  | duplicateMember (member : String)
  | membersCreated (typeName : String) (members : Nat)
  | nodesAllocated (types members : Nat)
  | stubTypeCreated (typeName : String)
  | stubMethodCreated (method : String)
  | callSkipped (method declaringType : String)
  | ambiguousName (member candidate : String) (count : Nat)
  | ambiguousFullName (member candidate : String) (count : Nat)
  | accessorWithoutProperty (accessor : String)
  | accessorLinked (accessor property : String) (dependencies : Nat)
  | methodNotFound (method : String)
  | methodAborted (method reason : String)
  | typeExtracted (typeName : String) (methods calls : Nat)
  | dependenciesExtracted (methods calls linkedAccessors stubTypes : Nat)
  | backwardsLinked (typeDependencies : Nat)
deriving DecidableEq, Repr

abbrev Journal := Array Event

namespace Event

def level : Event → EventLevel
  | stubTypeCreated .. | stubMethodCreated .. | callSkipped .. => .trace
  | metadataLoaded .. | membersCreated .. | ambiguousName .. | ambiguousFullName ..
  | accessorWithoutProperty .. | accessorLinked .. | methodNotFound .. | typeExtracted .. => .debug
  | nodesAllocated .. | dependenciesExtracted .. | backwardsLinked .. => .info
  | duplicateType .. | duplicateMember .. => .warn
  | methodAborted .. => .error

def message : Event → String
  | metadataLoaded .. => "Loaded metadata"
  | duplicateType .. => "Duplicate type definition ignored"
  | duplicateMember .. => "Duplicate member definition ignored"
  | membersCreated .. => "Members created"
  | nodesAllocated .. => "Pass 1: nodes allocated"
  | stubTypeCreated .. => "Creating stub type"
  | stubMethodCreated .. => "Creating stub method"
  | callSkipped .. => "Skipping unresolvable call operand"
  | ambiguousName .. => "Ambiguous property name"
  | ambiguousFullName .. => "Ambiguous property full name"
  | accessorWithoutProperty .. => "No property for accessor"
  | accessorLinked .. => "Linked accessor to property"
  | methodNotFound .. => "No method node, skipping"
  | methodAborted .. => "Aborting method extraction"
  | typeExtracted .. => "Extracted type dependencies"
  | dependenciesExtracted .. => "Pass 2: dependencies extracted"
  | backwardsLinked .. => "Pass 3: backwards dependencies linked"

def fields : Event → List (String × EventValue)
  | metadataLoaded path assemblies => [("path", .text path), ("assemblies", .count assemblies)]
  | duplicateType typeName => [("type_name", .text typeName)]
  | duplicateMember member => [("member", .text member)]
  | membersCreated typeName members => [("type_name", .text typeName), ("members", .count members)]
  | nodesAllocated types members => [("types", .count types), ("members", .count members)]
  | stubTypeCreated typeName => [("type_name", .text typeName)]
  | stubMethodCreated method => [("method", .text method)]
  | callSkipped method declaringType =>
    [("method", .text method), ("declaring_type", .text declaringType)]
  | ambiguousName member candidate count =>
    [("member", .text member), ("candidate", .text candidate), ("count", .count count)]
  | ambiguousFullName member candidate count =>
    [("member", .text member), ("candidate", .text candidate), ("count", .count count)]
  | accessorWithoutProperty accessor => [("accessor", .text accessor)]
  | accessorLinked accessor property dependencies =>
    [("accessor", .text accessor), ("property", .text property),
      ("dependencies", .count dependencies)]
  | methodNotFound method => [("method", .text method)]
  | methodAborted method reason => [("method", .text method), ("error", .text reason)]
  | typeExtracted typeName methods calls =>
    [("type_name", .text typeName), ("methods", .count methods), ("calls", .count calls)]
  | dependenciesExtracted methods calls linkedAccessors stubTypes =>
    [("methods", .count methods), ("calls", .count calls),
      ("linked_accessors", .count linkedAccessors), ("stub_types", .count stubTypes)]
  | backwardsLinked typeDependencies => [("type_dependencies", .count typeDependencies)]

end Event

end MemberGraph
