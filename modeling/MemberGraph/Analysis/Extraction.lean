import MemberGraph.Analysis.Accessor
import MemberGraph.Analysis.Statistics

/-!
Extracting the dependencies of the methods of a type. A method gets the dependencies of its
signature, of the types in its body and of its calls. The calls of an accessor go to its property
and the accessor linked to that instead.
-/

set_option autoImplicit false

namespace MemberGraph.Analysis

def accessorStatistics : AccessorLink → Statistics
  | .linked _ backingField _ =>
    { linkedAccessors := 1, backingFieldsLinked := backingField.isSome.toNat }
  | .unlinked => { unlinkedAccessors := 1 }

/-- The calls that a method gets for its body, with their counts. A body that is an accessor's gives
it none. -/
def methodCalls (analysis : Analysis) (options : Options) (on : TypeId) (id : MemberId)
    (method : MethodDefinition) :
    Except ExtractionFailure (List Dependency × Statistics) × Analysis :=
  match method.body with
  | none => (.ok ([], {}), analysis)
  | some body =>
    if method.isAccessor then
      match analysis.tieAccessor options.callPolicy on id method with
      | (.ok outcome, analysis) => (.ok ([], accessorStatistics outcome), analysis)
      | (.error error, analysis) =>
        (.error error, analysis.note (.methodAborted method.fullName error.message))
    else
      let (attached, analysis) := analysis.attachStoredCalls options.callPolicy on body
      let (calls, analysis) := analysis.callUses options.callPolicy id (some body)
      (.ok (calls.dependencies,
          { callDependencies := calls.dependencies.length
            unresolvedCalls := calls.unresolved
            backingFieldCalls := attached }),
        analysis)

def extractKnownMethod (analysis : Analysis) (options : Options) (on : TypeId) (id : MemberId)
    (method : MethodDefinition) : Except ExtractionFailure Statistics × Analysis :=
  let (signature, analysis) := analysis.signatureUses id method
  let (body, analysis) := analysis.bodyUses id method.body
  match analysis.methodCalls options on id method with
  | (.error error, analysis) => (.error error, analysis)
  | (.ok (calls, statistics), analysis) =>
    (.ok (statistics.merge
        { methods := 1
          signatureDependencies := signature.length
          bodyTypeDependencies := body.length }),
      analysis.updateCatalog (·.addDependencies id (signature ++ body ++ calls)))

def extractMethod (analysis : Analysis) (options : Options) (on : TypeId)
    (method : MethodDefinition) : Except ExtractionFailure Statistics × Analysis :=
  match analysis.catalog.methodNamed? on method.fullName with
  | some id => analysis.extractKnownMethod options on id method
  | none => (.ok {}, analysis.note (.methodNotFound method.fullName))

/-- Extracts the dependencies of methods in turn, up to the first that fails. What was recorded
until then stays. -/
def extractMethods (analysis : Analysis) (options : Options) (on : TypeId) :
    List MethodDefinition → Except ExtractionFailure Statistics × Analysis
  | [] => (.ok {}, analysis)
  | method :: rest =>
    match analysis.extractMethod options on method with
    | (.error error, analysis) => (.error error, analysis)
    | (.ok first, analysis) =>
      match analysis.extractMethods options on rest with
      | (.error error, analysis) => (.error error, analysis)
      | (.ok others, analysis) => (.ok (first.merge others), analysis)

def extractType (analysis : Analysis) (options : Options) (on : TypeId)
    (definition : TypeDefinition) : Except ExtractionFailure Statistics × Analysis :=
  match analysis.extractMethods options on definition.methods with
  | (.error error, analysis) => (.error error, analysis)
  | (.ok statistics, analysis) =>
    (.ok statistics,
      analysis.note
        (.typeExtracted definition.fullName statistics.methods statistics.callDependencies))

end MemberGraph.Analysis
