import MemberGraph.Analysis.Uses
import MemberGraph.Catalog.BackingLink
import MemberGraph.Convention

/-!
Tying accessors and storage fields to properties. Metadata has them as plain members; which property
they implement follows from naming conventions and from the shape of the instructions. Where more
than one property fits, none is chosen.
-/

set_option autoImplicit false

namespace MemberGraph

inductive ExtractionFailure where
  /-- A method that is flagged as accessor has a form for which there is no convention. -/
  | noConvention (form : MethodForm) (method : String)
  /-- A property is linked to an accessor that the catalog does not hold. -/
  | unknownMember (id : MemberId)
deriving DecidableEq, Repr

def MethodForm.label : MethodForm → String
  | .unspecified => "None"
  | .normal => "Normal"
  | .constructor => "Constructor"
  | .getter => "Getter"
  | .setter => "Setter"

def ExtractionFailure.message : ExtractionFailure → String
  | .noConvention form method =>
    "no property name matcher for method form " ++ form.label ++ " (" ++ method ++ ")"
  | .unknownMember id => "no member with id " ++ toString id.index

def MethodForm.convention? : MethodForm → Option Convention
  | .getter => some .getter
  | .setter => some .setter
  | _ => none

inductive AccessorLink where
  | linked (property : MemberId) (backingField : Option MemberId) (dependencies : Nat)
  | unlinked
deriving DecidableEq, Repr

namespace Analysis

def propertyByName (analysis : Analysis) (on : TypeId) (fullName candidate : String) :
    Option MemberId × Analysis :=
  match analysis.catalog.propertyNamed on candidate with
  | .unique property => (some property, analysis)
  | .notFound => (none, analysis)
  | .ambiguous count => (none, analysis.note (.ambiguousName fullName candidate count))

def propertyByEnding (analysis : Analysis) (on : TypeId) (fullName candidate : String) :
    Option MemberId × Analysis :=
  match analysis.catalog.propertyEnding on candidate with
  | .unique property => (some property, analysis)
  | .notFound => (none, analysis)
  | .ambiguous count => (none, analysis.note (.ambiguousFullName fullName candidate count))

/-- The property of the type `on` that a member implements: by the simple name that the convention
gives for the member's name, or else by the end of the full name, for the name inside the member's
full name. -/
def propertyOf (analysis : Analysis) (on : TypeId) (convention : Convention)
    (name fullName : String) : Option MemberId × Analysis :=
  let (byName, analysis) :=
    match convention.property? name with
    | some candidate => analysis.propertyByName on fullName candidate
    | none => (none, analysis)
  match byName, convention.property? (FullName.memberName fullName) with
  | some property, _ => (some property, analysis)
  | none, some candidate => analysis.propertyByEnding on fullName candidate
  | none, none => (none, analysis)

def calledMethods (body : MethodBody) : List MethodReference :=
  (body.instructions.filter (·.opcode.isMethodCall)).filterMap Instruction.method?

/-- The field that a body uses to store a property: the last field operand that names a field of the
type `on`, no other field of the type having that name, and that may store the property. -/
def storageCandidate? (catalog : Catalog) (on : TypeId) (property : MemberId) (body : MethodBody) :
    Option MemberId := do
  let entry ← catalog.type? on
  let operands := (body.instructions.filterMap Instruction.field?).filter
    (·.declaringType.fullName == entry.fullName)
  let fields := operands.filterMap fun field => (catalog.fieldNamed on field.name).unique?
  (fields.filter (catalog.mayBack · property)).getLast?

def linkStorage (catalog : Catalog) (on : TypeId) (property : MemberId) (body : MethodBody) :
    Catalog :=
  match storageCandidate? catalog on property body with
  | some field => (catalog.linkBacking property field).2
  | none => catalog

def recordedDependencies (catalog : Catalog) (id : MemberId) : List Dependency :=
  (catalog.member? id).elim [] (·.dependencies.toList)

/-- Ties a property that was found to its accessor: the calls of the accessor's body, and then what
the backing field depends on, become dependencies of the property and of the accessor that it is
linked to, or of `method` if it is linked to none. -/
def linkAccessor (analysis : Analysis) (policy : CallPolicy) (on : TypeId)
    (property method : MemberId) (definition : MethodDefinition) (body : MethodBody) :
    Except ExtractionFailure AccessorLink × Analysis :=
  let (targets, analysis) := analysis.resolveAll policy (calledMethods body)
  let analysis := analysis.updateCatalog (linkStorage · on property body)
  let links := (analysis.catalog.linksOf? property).getD {}
  let linked := if definition.form = .getter then links.getter else links.setter
  let accessor := linked.getD method
  let inherited := links.backingField.elim [] (recordedDependencies analysis.catalog)
  let dependencies := callsTo property targets ++ inherited
  if analysis.catalog.hasMember accessor then
    let analysis := analysis.updateCatalog fun catalog =>
      (catalog.addDependencies accessor dependencies).addDependencies property dependencies
    let propertyName := (analysis.catalog.member? property).elim "" (·.fullName)
    (.ok (.linked property links.backingField dependencies.length),
      analysis.note (.accessorLinked definition.fullName propertyName dependencies.length))
  else
    (.error (.unknownMember accessor), analysis)

def tieAccessor (analysis : Analysis) (policy : CallPolicy) (on : TypeId) (method : MemberId)
    (definition : MethodDefinition) : Except ExtractionFailure AccessorLink × Analysis :=
  match definition.form.convention?, definition.body with
  | none, _ => (.error (.noConvention definition.form definition.fullName), analysis)
  | some _, none => (.ok .unlinked, analysis)
  | some convention, some body =>
    match analysis.propertyOf on convention definition.name definition.fullName with
    | (none, analysis) =>
      (.ok .unlinked, analysis.note (.accessorWithoutProperty definition.fullName))
    | (some property, analysis) =>
      analysis.linkAccessor policy on property method definition body

/-- A call whose result is stored at once: the method that is called and the field, if the two
instructions are such a pair and the field is one of the type named `typeName` whose name follows
the convention for fields. -/
def storedCall? (typeName : String) (first second : Instruction) :
    Option (MethodReference × FieldReference) := do
  let reference ← first.method?
  let field ← second.storedField?
  if field.declaringType.fullName = typeName ∧ (Convention.field.property? field.name).isSome then
    some (reference, field)
  else
    none

def adjacentPairs {α : Type} (values : List α) : List (α × α) := values.zip values.tail

def storedCalls (typeName : String) (body : MethodBody) : List (MethodReference × FieldReference) :=
  (adjacentPairs body.instructions).filterMap fun (first, second) =>
    storedCall? typeName first second

/-- Gives the property that a field belongs to a dependency on the method whose result is stored in
the field; the answer says whether it did. -/
def attachCall (analysis : Analysis) (policy : CallPolicy) (on : TypeId)
    (reference : MethodReference) (field : FieldReference) : Bool × Analysis :=
  match analysis.propertyOf on .field field.name field.fullName with
  | (none, analysis) => (false, analysis)
  | (some property, analysis) =>
    match analysis.resolve policy reference with
    | (none, analysis) => (false, analysis)
    | (some target, analysis) =>
      (true, analysis.updateCatalog (·.addDependencies property [.call property target]))

def attachCalls (analysis : Analysis) (policy : CallPolicy) (on : TypeId) :
    List (MethodReference × FieldReference) → Nat × Analysis
  | [] => (0, analysis)
  | (reference, field) :: rest =>
    let (attached, analysis) := analysis.attachCall policy on reference field
    let (count, analysis) := analysis.attachCalls policy on rest
    (attached.toNat + count, analysis)

def attachStoredCalls (analysis : Analysis) (policy : CallPolicy) (on : TypeId)
    (body : MethodBody) : Nat × Analysis :=
  match analysis.catalog.type? on with
  | some entry => analysis.attachCalls policy on (storedCalls entry.fullName body)
  | none => (0, analysis)

end Analysis

end MemberGraph
