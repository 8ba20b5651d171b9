import MemberGraph.Analysis.Build
import MemberGraph.TypeGraph

/-!
Working on a catalog step by step. A step asks the catalog something or changes it; it fails where
it follows an id that the catalog does not have, or where extraction fails.
-/

set_option autoImplicit false

namespace MemberGraph

inductive Step where
  | defineType (reference : TypeReference) (kind : TypeKind) (visibility : Visibility)
  | typeFor (reference : TypeReference)
  | methodFor (on : TypeId) (reference : MethodReference)
  /-- Adds a member without dependencies under a key of its own. -/
  | addMember (key : String) (on : TypeId) (name fullName : String) (memberType : TypeId)
      (visibility : Visibility) (isStub : Bool) (role : MemberRole)
  | getType (id : TypeId)
  | getMember (id : MemberId)
  | findType (fullName : String)
  | containsType (fullName : String)
  | findMember (fullName : String)
  | findMethod (on : TypeId) (fullName : String)
  | declaredMembers (on : TypeId)
  | declaredProperties (on : TypeId)
  | declaredFields (on : TypeId)
  | propertyNamed (on : TypeId) (name : String)
  | propertyEnding (on : TypeId) (suffix : String)
  | fieldNamed (on : TypeId) (name : String)
  | addDependencies (id : MemberId) (dependencies : List Dependency)
  | addBackwards (id : MemberId) (dependency : Dependency)
  | addTypeDependency (dependency : TypeDependency)
  | linkBacking (property field : MemberId)
  | mayBack (field property : MemberId)
  | isEmpty
  | linkBackwards
  | extract (on : TypeId) (definition : TypeDefinition) (options : Options)
  | tieAccessor (on : TypeId) (method : MemberId) (definition : MethodDefinition)
      (policy : CallPolicy)
  | attach (on : TypeId) (body : MethodBody) (policy : CallPolicy)
  | propertyOf (on : TypeId) (convention : Convention) (name fullName : String)
  | signatureUses (origin : MemberId) (method : MethodDefinition)
  | bodyUses (origin : MemberId) (body : Option MethodBody)
  | callUses (origin : MemberId) (body : Option MethodBody) (policy : CallPolicy)
  | resolve (reference : MethodReference) (policy : CallPolicy)
  | graph
  | neighbours (id : TypeId)
  | snapshot

inductive Answer where
  | done
  | flag (value : Bool)
  | count (value : Nat)
  | typeId (id : Option TypeId)
  | memberId (id : Option MemberId)
  | memberIds (ids : List MemberId)
  | type (entry : TypeEntry)
  | member (member : Member)
  | selection (outcome : Selection MemberId)
  | dependencies (dependencies : List Dependency)
  | calls (scan : Analysis.CallScan)
  | statistics (statistics : Statistics)
  | accessor (outcome : AccessorLink)
  | graph (graph : TypeGraph)
  | neighbours (known : Bool) (dependencies dependents : List TypeId)
  | catalog (catalog : Catalog)

inductive StepError where
  | unknownType (id : TypeId)
  | unknownMember (id : MemberId)
  | noConvention (form : MethodForm) (method : String)
deriving DecidableEq, Repr

def StepError.ofExtraction : ExtractionFailure → StepError
  | .noConvention form method => .noConvention form method
  | .unknownMember id => .unknownMember id

/-- Whether the names of a member lead to a candidate for its property. -/
def Convention.applies (convention : Convention) (name fullName : String) : Bool :=
  (convention.property? name).isSome ||
    (convention.property? (FullName.memberName fullName)).isSome

/-- Whether the properties of its type are looked at when an accessor is tied to its property. -/
def MethodDefinition.seeksProperty (method : MethodDefinition) : Bool :=
  method.body.isSome &&
    method.form.convention?.any (·.applies method.name method.fullName)

namespace Catalog

def askType (catalog : Catalog) (id : TypeId) (answer : Catalog → Answer) :
    Except StepError Answer × Catalog :=
  if catalog.hasType id then (.ok (answer catalog), catalog)
  else (.error (.unknownType id), catalog)

def changeMember (catalog : Catalog) (id : MemberId) (change : Catalog → Catalog) :
    Except StepError Answer × Catalog :=
  if catalog.hasMember id then (.ok .done, change catalog)
  else (.error (.unknownMember id), catalog)

def analyse {α : Type} (catalog : Catalog) (run : Analysis → α × Analysis) (answer : α → Answer) :
    Except StepError Answer × Catalog :=
  let (value, analysis) := run { catalog }
  (.ok (answer value), analysis.catalog)

/-- Runs a piece of an analysis that may fail on the catalog. What it changed before stays. -/
def analyseOrFail {α : Type} (catalog : Catalog)
    (run : Analysis → Except ExtractionFailure α × Analysis) (answer : α → Answer) :
    Except StepError Answer × Catalog :=
  match run { catalog } with
  | (.ok value, analysis) => (.ok (answer value), analysis.catalog)
  | (.error error, analysis) => (.error (.ofExtraction error), analysis.catalog)

/-- Adds a member for a step, on a type that exists unless the key is taken anyway. -/
def addMemberOn (catalog : Catalog) (key : String) (on : TypeId) (make : MemberId → Member) :
    Except StepError Answer × Catalog :=
  if catalog.hasType on ∨ (catalog.memberNamed? key).isSome then
    let (id, catalog) := catalog.addMember key make
    (.ok (.memberId (some id)), catalog)
  else
    (.error (.unknownType on), catalog)

/-- Gets the method of a type for a step. Unless the name is taken, the type has to exist once the
types of the signature do. -/
def methodForOn (catalog : Catalog) (on : TypeId) (reference : MethodReference) :
    Except StepError Answer × Catalog :=
  let (id, analysis) := ({ catalog } : Analysis).methodFor on reference
  if analysis.catalog.hasType on ∨ (catalog.memberNamed? reference.fullName).isSome then
    (.ok (.memberId (some id)), analysis.catalog)
  else
    (.error (.unknownType on), catalog)

/-- Links a property to a field for a step. The property is looked at only if the field may store
it. -/
def linkBackingChecked (catalog : Catalog) (property field : MemberId) :
    Except StepError Answer × Catalog :=
  if !catalog.hasMember field then (.error (.unknownMember field), catalog)
  else if catalog.mayBack field property && !catalog.hasMember property then
    (.error (.unknownMember property), catalog)
  else
    let (linked, catalog) := catalog.linkBacking property field
    (.ok (.flag linked), catalog)

def addTypeDependencyChecked (catalog : Catalog) (dependency : TypeDependency) :
    Except StepError Answer × Catalog :=
  if !catalog.hasType dependency.target then (.error (.unknownType dependency.target), catalog)
  else if !catalog.hasType dependency.origin then (.error (.unknownType dependency.origin), catalog)
  else (.ok .done, catalog.addTypeDependency dependency)

def missingTarget? (catalog : Catalog) : Option StepError :=
  catalog.heldDependencies.findSome? fun (_, dependency) =>
    match dependency with
    | .onType _ _ target => if catalog.hasType target then none else some (.unknownType target)
    | .call _ target => if catalog.hasMember target then none else some (.unknownMember target)

def linkBackwardsChecked (catalog : Catalog) : Except StepError Answer × Catalog :=
  match catalog.missingTarget? with
  | some error => (.error error, catalog)
  | none =>
    let (count, catalog) := catalog.linkBackwards
    (.ok (.count count), catalog)

end Catalog

def Step.apply (catalog : Catalog) : Step → Except StepError Answer × Catalog
  | defineType reference kind visibility =>
    let (id, catalog) := catalog.defineType reference kind visibility
    (.ok (.typeId (some id)), catalog)
  | typeFor reference => catalog.analyse (·.typeFor reference) (.typeId ∘ some)
  | methodFor on reference => catalog.methodForOn on reference
  | addMember key on name fullName memberType visibility isStub role =>
    catalog.addMemberOn key on fun id =>
      { id, declaringType := on, name, fullName, memberType, visibility, isStub, role }
  | getType id =>
    match catalog.type? id with
    | some entry => (.ok (.type entry), catalog)
    | none => (.error (.unknownType id), catalog)
  | getMember id =>
    match catalog.member? id with
    | some member => (.ok (.member member), catalog)
    | none => (.error (.unknownMember id), catalog)
  | findType fullName => (.ok (.typeId (catalog.typeNamed? fullName)), catalog)
  | containsType fullName => (.ok (.flag (catalog.typeNamed? fullName).isSome), catalog)
  | findMember fullName => (.ok (.memberId (catalog.memberNamed? fullName)), catalog)
  | findMethod on fullName => (.ok (.memberId (catalog.methodNamed? on fullName)), catalog)
  | declaredMembers on =>
    catalog.askType on fun catalog => .memberIds ((catalog.declaredMembers on).map (·.id))
  | declaredProperties on =>
    catalog.askType on fun catalog => .memberIds ((catalog.declaredProperties on).map (·.id))
  | declaredFields on =>
    catalog.askType on fun catalog => .memberIds ((catalog.declaredFields on).map (·.id))
  | propertyNamed on name =>
    catalog.askType on fun catalog => .selection (catalog.propertyNamed on name)
  | propertyEnding on suffix =>
    catalog.askType on fun catalog => .selection (catalog.propertyEnding on suffix)
  | fieldNamed on name => catalog.askType on fun catalog => .selection (catalog.fieldNamed on name)
  | addDependencies id dependencies =>
    catalog.changeMember id (·.addDependencies id dependencies)
  | addBackwards id dependency => catalog.changeMember id (·.addBackwards id dependency)
  | addTypeDependency dependency => catalog.addTypeDependencyChecked dependency
  | linkBacking property field => catalog.linkBackingChecked property field
  | mayBack field property =>
    if catalog.hasMember field then (.ok (.flag (catalog.mayBack field property)), catalog)
    else (.error (.unknownMember field), catalog)
  | isEmpty => (.ok (.flag catalog.types.isEmpty), catalog)
  | linkBackwards => catalog.linkBackwardsChecked
  | extract on definition options =>
    catalog.analyseOrFail (·.extractType options on definition) .statistics
  | tieAccessor on method definition policy =>
    if definition.seeksProperty && !catalog.hasType on then (.error (.unknownType on), catalog)
    else catalog.analyseOrFail (·.tieAccessor policy on method definition) .accessor
  | attach on body policy =>
    if catalog.hasType on then catalog.analyse (·.attachStoredCalls policy on body) .count
    else (.error (.unknownType on), catalog)
  | propertyOf on convention name fullName =>
    if convention.applies name fullName && !catalog.hasType on then
      (.error (.unknownType on), catalog)
    else
      catalog.analyse (·.propertyOf on convention name fullName) .memberId
  | signatureUses origin method => catalog.analyse (·.signatureUses origin method) .dependencies
  | bodyUses origin body => catalog.analyse (·.bodyUses origin body) .dependencies
  | callUses origin body policy => catalog.analyse (·.callUses policy origin body) .calls
  | resolve reference policy => catalog.analyse (·.resolve policy reference) .memberId
  | graph => (.ok (.graph catalog.dependencyGraph), catalog)
  | neighbours id =>
    let graph := catalog.dependencyGraph
    (.ok (.neighbours (catalog.hasType id) (graph.targetsOf id) (graph.sourcesOf id)),
      catalog)
  | snapshot => (.ok (.catalog catalog), catalog)

end MemberGraph
