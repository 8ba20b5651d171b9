import MemberGraph.Analysis.Extraction
import MemberGraph.Catalog.Backwards

/-!
A whole analysis, in three passes. The first enters all types and then their members into the
catalog, so that a reference to something defined never makes a stub. The second extracts the
dependencies of the methods. The third turns dependencies around, if that is wanted.
-/

set_option autoImplicit false

namespace MemberGraph

structure Architecture where
  catalog : Catalog
  statistics : Statistics

structure BuildError where
  typeName : String
  cause : ExtractionFailure
deriving DecidableEq, Repr

def BuildError.messages (error : BuildError) : List String :=
  ["Failed to extract dependencies of " ++ error.typeName, error.cause.message]

namespace Analysis

/-! ## First pass -/

abbrev LoadedType := TypeId × TypeDefinition

/-- Enters a type of an assembly. A second definition of a name is ignored, with a warning. -/
def loadType (analysis : Analysis) (assembly : String) (definition : TypeDefinition) :
    Option LoadedType × Analysis :=
  let known := (analysis.catalog.typeNamed? definition.fullName).bind analysis.catalog.type?
  if known.any (!·.isStub) then
    (none, analysis.note (.duplicateType definition.fullName))
  else
    let (id, catalog) := analysis.catalog.defineType
      { fullName := definition.fullName, assembly := some assembly }
      definition.kind definition.visibility
    (some (id, definition), { analysis with catalog })

def loadTypes (analysis : Analysis) :
    List (String × TypeDefinition) → List LoadedType × Analysis
  | [] => ([], analysis)
  | (assembly, definition) :: rest =>
    let (loaded, analysis) := analysis.loadType assembly definition
    let (others, analysis) := analysis.loadTypes rest
    (loaded.toList ++ others, analysis)

/-- Runs `create`, unless a member of that full name exists already, which is warned of. -/
def unlessKnown (analysis : Analysis) (fullName : String) (create : Analysis → Analysis) :
    Analysis :=
  match analysis.catalog.memberNamed? fullName with
  | some _ => analysis.note (.duplicateMember fullName)
  | none => create analysis

def loadField (analysis : Analysis) (on : TypeId) (field : FieldDefinition) : Analysis :=
  analysis.unlessKnown field.fullName fun analysis =>
    let (target, analysis) := analysis.typeFor field.fieldType
    analysis.updateCatalog fun catalog =>
      let (id, catalog) := catalog.addMember field.fullName fun id =>
        { id, declaringType := on, name := field.name, fullName := field.fullName
          memberType := target, visibility := field.visibility, isStub := false
          role := .field none }
      catalog.addDependencies id [.onType .field id target]

def loadMethod (analysis : Analysis) (on : TypeId) (method : MethodDefinition) : Analysis :=
  analysis.unlessKnown method.fullName fun analysis =>
    let (returnType, analysis) := analysis.typeFor method.returnType
    let (parameters, analysis) := analysis.typesFor method.parameters
    let (genericParameters, analysis) := analysis.typesFor method.genericParameters
    analysis.updateCatalog fun catalog =>
      (catalog.addMember method.fullName fun id =>
        { id, declaringType := on, name := method.name, fullName := method.fullName
          memberType := returnType, visibility := method.visibility, isStub := false
          role := .method
            { form := method.form, parameters, genericParameters
              hasBody := method.body.isSome } }).2

/-- Enters a property of the type `on`, which depends on the property's type and is linked to those
of its accessors that are methods of the type. -/
def loadProperty (analysis : Analysis) (on : TypeId) (property : PropertyDefinition) : Analysis :=
  analysis.unlessKnown property.fullName fun analysis =>
    let getter := property.getter.bind (analysis.catalog.methodNamed? on)
    let setter := property.setter.bind (analysis.catalog.methodNamed? on)
    let (target, analysis) := analysis.typeFor property.propertyType
    analysis.updateCatalog fun catalog =>
      let (id, catalog) := catalog.addMember property.fullName fun id =>
        { id, declaringType := on, name := property.name, fullName := property.fullName
          memberType := target, visibility := property.visibility, isStub := false
          role := .property { getter, setter } }
      catalog.addDependencies id [.onType .property id target]

def loadMembers (analysis : Analysis) : LoadedType → Analysis
  | (on, definition) =>
    let analysis := definition.fields.foldl (·.loadField on ·) analysis
    let analysis := definition.methods.foldl (·.loadMethod on ·) analysis
    let analysis := definition.properties.foldl (·.loadProperty on ·) analysis
    let members := (analysis.catalog.type? on).elim 0 (·.members.size)
    analysis.note (.membersCreated definition.fullName members)

def typeDefinitions (metadata : Metadata) : List (String × TypeDefinition) :=
  metadata.assemblies.flatMap fun assembly =>
    assembly.types.map fun definition => (assembly.name, definition)

/-- The first pass: enters all types and then all members. The answer lists the types that were
loaded. -/
def allocate (analysis : Analysis) (metadata : Metadata) : List LoadedType × Analysis :=
  let (loaded, analysis) := analysis.loadTypes (typeDefinitions metadata)
  let analysis := loaded.foldl loadMembers analysis
  (loaded, analysis.note (.nodesAllocated loaded.length analysis.catalog.members.size))

/-! ## Second and third pass -/

def extractTypes (analysis : Analysis) (options : Options) :
    List LoadedType → Except BuildError Statistics × Analysis
  | [] => (.ok {}, analysis)
  | (on, definition) :: rest =>
    match analysis.extractType options on definition with
    | (.error cause, analysis) => (.error { typeName := definition.fullName, cause }, analysis)
    | (.ok first, analysis) =>
      match analysis.extractTypes options rest with
      | (.error error, analysis) => (.error error, analysis)
      | (.ok others, analysis) => (.ok (first.merge others), analysis)

def extractAll (analysis : Analysis) (options : Options) (loaded : List LoadedType) :
    Except BuildError Statistics × Analysis :=
  match analysis.extractTypes options loaded with
  | (.error error, analysis) => (.error error, analysis)
  | (.ok statistics, analysis) =>
    (.ok statistics,
      analysis.note
        (.dependenciesExtracted statistics.methods statistics.callDependencies
          statistics.linkedAccessors analysis.catalog.stubTypeCount))

/-- The third pass: turns dependencies around, if the options ask for it. -/
def turnAround (analysis : Analysis) (options : Options) : Analysis :=
  if options.linkBackwards then
    let (count, catalog) := analysis.catalog.linkBackwards
    { analysis with catalog }.note (.backwardsLinked count)
  else
    analysis

def build (analysis : Analysis) (options : Options) (metadata : Metadata) :
    Except BuildError Architecture × Analysis :=
  let (loaded, analysis) := analysis.allocate metadata
  match analysis.extractAll options loaded with
  | (.error error, analysis) => (.error error, analysis)
  | (.ok statistics, analysis) =>
    let analysis := analysis.turnAround options
    (.ok { catalog := analysis.catalog, statistics }, analysis)

end Analysis

/-- Analyses metadata from an empty catalog; the journal is kept also on failure. -/
def Architecture.build (options : Options) (metadata : Metadata) :
    Except BuildError Architecture × Journal :=
  let (result, analysis) := Analysis.build {} options metadata
  (result, analysis.journal)

end MemberGraph
