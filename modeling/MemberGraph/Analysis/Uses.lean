import MemberGraph.Analysis.Basic
import MemberGraph.Analysis.Options

/-!
What a method definition uses: the types of its signature, the types in its body, and the methods
that its body refers to. The dependencies are answers here; recording them is left to the caller.
-/

set_option autoImplicit false

namespace MemberGraph.Analysis

def typeUses (analysis : Analysis) (use : TypeUse) (origin : MemberId)
    (references : List TypeReference) : List Dependency × Analysis :=
  let (targets, analysis) := analysis.typesFor references
  (targets.map (.onType use origin), analysis)

def signatureUses (analysis : Analysis) (origin : MemberId) (method : MethodDefinition) :
    List Dependency × Analysis :=
  analysis.typeUses .signature origin method.signatureTypes

def bodyUses (analysis : Analysis) (origin : MemberId) (body : Option MethodBody) :
    List Dependency × Analysis :=
  analysis.typeUses .body origin (body.elim [] MethodBody.usedTypes)

/-- The method that a call operand names: one that its type declares, or else a stub, if stubs are
wanted and the type is a stub itself. -/
def resolve (analysis : Analysis) (policy : CallPolicy) (reference : MethodReference) :
    Option MemberId × Analysis :=
  let (on, analysis) := analysis.typeFor reference.declaringType
  match analysis.catalog.methodNamed? on reference.fullName with
  | some id => (some id, analysis)
  | none =>
    if policy = .stubExternal ∧ analysis.catalog.isStubType on then
      let (id, analysis) := analysis.methodFor on reference
      (some id, analysis)
    else
      (none, analysis.note (.callSkipped reference.fullName reference.declaringType.fullName))

/-- The methods that call operands name, in order; `none` for an operand that leads nowhere. -/
def resolveAll (analysis : Analysis) (policy : CallPolicy) :
    List MethodReference → List (Option MemberId) × Analysis
  | [] => ([], analysis)
  | reference :: rest =>
    let (target, analysis) := analysis.resolve policy reference
    let (targets, analysis) := analysis.resolveAll policy rest
    (target :: targets, analysis)

def callsTo (origin : MemberId) (targets : List (Option MemberId)) : List Dependency :=
  targets.reduceOption.map (.call origin)

/-- The calls of a body: the dependencies, and the number of operands that led nowhere. Every method
operand counts, whether it is called or only named. -/
structure CallScan where
  dependencies : List Dependency := []
  unresolved : Nat := 0
deriving DecidableEq, Repr

def callUses (analysis : Analysis) (policy : CallPolicy) (origin : MemberId)
    (body : Option MethodBody) : CallScan × Analysis :=
  let operands := body.elim [] fun body => body.instructions.filterMap Instruction.method?
  let (targets, analysis) := analysis.resolveAll policy operands
  ({ dependencies := callsTo origin targets, unresolved := targets.countP (·.isNone) }, analysis)

end MemberGraph.Analysis
