import MemberGraph.Catalog.Selection
import MemberGraph.Journal

/-!
The state of an analysis: the catalog as far as it is known, and the journal. Whatever a reference
names gets an entry on the spot, so that no dependency leads out of the catalog.
-/

set_option autoImplicit false

namespace MemberGraph

structure Analysis where
  catalog : Catalog := .empty
  journal : Journal := #[]

namespace Analysis

def note (analysis : Analysis) (event : Event) : Analysis :=
  { analysis with journal := analysis.journal.push event }

def updateCatalog (analysis : Analysis) (change : Catalog → Catalog) : Analysis :=
  { analysis with catalog := change analysis.catalog }

/-- The type that a reference names; a stub is added for a name that is new. -/
def typeFor (analysis : Analysis) (reference : TypeReference) : TypeId × Analysis :=
  match analysis.catalog.typeNamed? reference.fullName with
  | some id => (id, analysis)
  | none =>
    let (id, catalog) := analysis.catalog.addStubType reference
    (id, { analysis with catalog }.note (.stubTypeCreated reference.fullName))

def typesFor (analysis : Analysis) : List TypeReference → List TypeId × Analysis
  | [] => ([], analysis)
  | reference :: rest =>
    let (id, analysis) := analysis.typeFor reference
    let (ids, analysis) := analysis.typesFor rest
    (id :: ids, analysis)

def stubMethod (reference : MethodReference) (on returnType : TypeId) (parameters : List TypeId)
    (id : MemberId) : Member where
  id
  declaringType := on
  name := reference.name
  fullName := reference.fullName
  memberType := returnType
  visibility := .pub
  isStub := true
  role := .method { parameters }

/-- The method of the type `on` that a reference names; a stub is added if the name is new. A name
that another type's member has leads to that member. -/
def methodFor (analysis : Analysis) (on : TypeId) (reference : MethodReference) :
    MemberId × Analysis :=
  match analysis.catalog.methodNamed? on reference.fullName with
  | some id => (id, analysis)
  | none =>
    let (returnType, analysis) := analysis.typeFor reference.returnType
    let (parameters, analysis) := analysis.typesFor reference.parameters
    let analysis := analysis.note (.stubMethodCreated reference.fullName)
    let (id, catalog) := analysis.catalog.addMember reference.fullName
      (stubMethod reference on returnType parameters)
    (id, { analysis with catalog })

end Analysis

end MemberGraph
