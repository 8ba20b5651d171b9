import MemberGraph.Proofs.ExtractionRun
import MemberGraph.Proofs.Failure

/-!
Extraction told by full names. The outline of a type is what an extraction has to know of it and of
its surroundings. From outlines alone it follows what each method gives to which member, which field
stores which property after it, and what is counted; no ids and no catalog are involved.
-/

set_option autoImplicit false

namespace MemberGraph

open Analysis

structure NamedEdge where
  kind : DependencyKind
  origin : String
  target : String
deriving DecidableEq, Repr

structure FieldOutline where
  name : String
  fullName : String
  edges : List NamedEdge
deriving DecidableEq, Repr

structure PropertyOutline where
  name : String
  fullName : String
  getter : Option String
  setter : Option String
deriving DecidableEq, Repr

/-- A type as an extraction sees it. -/
structure Outline where
  typeName : String
  fields : List FieldOutline
  properties : List PropertyOutline
  /-- Whether a full name is that of a method of the type. -/
  declares : String → Bool
  /-- Whether a call operand leads to a method. -/
  resolves : MethodReference → Bool

abbrev Storage := String → Option String

/-- Dependencies in the order in which they are given, each with the member that gets it. -/
abbrev EdgeLog := List (String × NamedEdge)

def EdgeLog.edgesOf (log : EdgeLog) (holder : String) : List NamedEdge :=
  (log.filter (·.1 = holder)).map (·.2)

def EdgeLog.to (holder : String) (edges : List NamedEdge) : EdgeLog := edges.map (holder, ·)

structure Yield where
  log : EdgeLog := []
  statistics : Statistics := {}
  /-- The types that are looked up. -/
  types : List String := []

def Yield.append (first second : Yield) : Yield where
  log := first.log ++ second.log
  statistics := first.statistics.merge second.statistics
  types := first.types ++ second.types

def PropertyOutline.receiver (property : PropertyOutline) (method : MethodDefinition) : String :=
  (if method.form = .getter then property.getter else property.setter).getD method.fullName

namespace Outline

variable (outline : Outline)

/-! ## Searches -/

def property? (fits : PropertyOutline → Bool) : Option PropertyOutline :=
  (Selection.among (outline.properties.filter fits)).unique?

def implemented? (convention : Convention) (name fullName : String) : Option PropertyOutline :=
  ((convention.property? name).bind fun candidate => outline.property? (·.name == candidate)).or
    ((convention.property? (FullName.memberName fullName)).bind fun candidate =>
      outline.property? (FullName.endsInSegment ·.fullName candidate))

def tied? (method : MethodDefinition) : Option PropertyOutline :=
  match method.form.convention?, method.body with
  | some convention, some _ => outline.implemented? convention method.name method.fullName
  | _, _ => none

def field? (name : String) : Option FieldOutline :=
  (Selection.among (outline.fields.filter (·.name == name))).unique?

/-! ## Storage -/

def mayStore (storage : Storage) (property field : String) : Bool :=
  outline.properties.all fun owner =>
    storage owner.fullName != some field || owner.fullName == property

def candidate? (storage : Storage) (property : String) (body : MethodBody) : Option FieldOutline :=
  let operands := (body.instructions.filterMap Instruction.field?).filter
    (·.declaringType.fullName == outline.typeName)
  ((operands.filterMap (outline.field? ·.name)).filter
    (outline.mayStore storage property ·.fullName)).getLast?

def store (storage : Storage) (property : String) (body : MethodBody) : Storage :=
  match outline.candidate? storage property body with
  | some field => Function.update storage property (some field.fullName)
  | none => storage

def storedBy (storage : Storage) (method : MethodDefinition) : Storage :=
  match outline.tied? method, method.body with
  | some property, some body => outline.store storage property.fullName body
  | _, _ => storage

def storageAfter (storage : Storage) (method : MethodDefinition) : Storage :=
  if outline.declares method.fullName then outline.storedBy storage method else storage

def inherited (storage : Storage) (property : String) : List NamedEdge :=
  (storage property).elim [] fun field =>
    (outline.fields.find? (·.fullName == field)).elim [] (·.edges)

/-! ## Yields -/

def calls (origin : String) (references : List MethodReference) : List NamedEdge :=
  (references.filter outline.resolves).map (⟨.call, origin, ·.fullName⟩)

def attach (call : MethodReference × FieldReference) : Yield :=
  match outline.implemented? .field call.2.name call.2.fullName with
  | some property =>
    { log := .to property.fullName (outline.calls property.fullName [call.1])
      statistics := { backingFieldCalls := (outline.resolves call.1).toNat }
      types := [call.1.declaringType.fullName] }
  | none => {}

def attachAll : List (MethodReference × FieldReference) → Yield
  | [] => {}
  | call :: rest => (outline.attach call).append (attachAll rest)

def tie (storage : Storage) (method : MethodDefinition) (body : MethodBody)
    (property : PropertyOutline) : Yield :=
  let after := outline.store storage property.fullName body
  let edges := outline.calls property.fullName (calledMethods body) ++
    outline.inherited after property.fullName
  { log := .to (property.receiver method) edges ++ .to property.fullName edges
    statistics :=
      { linkedAccessors := 1, backingFieldsLinked := (after property.fullName).isSome.toNat }
    types := (calledMethods body).map (·.declaringType.fullName) }

/-- What a body yields, apart from what its method gets. -/
def given (storage : Storage) (method : MethodDefinition) : Yield :=
  match method.body with
  | none => {}
  | some body =>
    if method.isAccessor then
      (outline.tied? method).elim { statistics := { unlinkedAccessors := 1 } }
        (outline.tie storage method body)
    else
      (outline.attachAll (storedCalls outline.typeName body)).append
        { statistics :=
            { callDependencies := (ownOperands method).countP outline.resolves
              unresolvedCalls := (ownOperands method).countP (!outline.resolves ·) }
          types := (ownOperands method).map (·.declaringType.fullName) }

def own (method : MethodDefinition) : List NamedEdge :=
  method.signatureTypes.map (⟨.typeUse .signature, method.fullName, ·.fullName⟩) ++
    (method.body.elim [] MethodBody.usedTypes).map
      (⟨.typeUse .body, method.fullName, ·.fullName⟩) ++
    outline.calls method.fullName (ownOperands method)

def yield (storage : Storage) (method : MethodDefinition) : Yield :=
  if outline.declares method.fullName then
    (outline.given storage method).append
      { log := .to method.fullName (outline.own method)
        statistics :=
          { methods := 1
            signatureDependencies := method.signatureTypes.length
            bodyTypeDependencies := (method.body.elim [] MethodBody.usedTypes).length }
        types := method.mentionedTypes.map (·.fullName) }
  else {}

end Outline

/-! ## Runs -/

/-- What methods yield one after the other, each with the outline of its type. -/
def runYield : Storage → List (Outline × MethodDefinition) → Yield
  | _, [] => {}
  | storage, (outline, method) :: rest =>
    (outline.yield storage method).append (runYield (outline.storageAfter storage method) rest)

def runStorage (storage : Storage) (visited : List (Outline × MethodDefinition)) : Storage :=
  visited.foldl (fun storage one => one.1.storageAfter storage one.2) storage

theorem Yield.append_assoc (first second third : Yield) :
    (first.append second).append third = first.append (second.append third) := by
  simp only [Yield.append, List.append_assoc, Statistics.merge_assoc]

theorem Yield.empty_append (yield : Yield) : Yield.append {} yield = yield := by
  simp only [Yield.append, List.nil_append, Statistics.empty_merge]

theorem Yield.append_empty (yield : Yield) : yield.append {} = yield := by
  simp only [Yield.append, List.append_nil, Statistics.merge_empty]

theorem runStorage_append (storage : Storage) (visited others : List (Outline × MethodDefinition)) :
    runStorage storage (visited ++ others) = runStorage (runStorage storage visited) others :=
  List.foldl_append

theorem runYield_append (storage : Storage) (visited others : List (Outline × MethodDefinition)) :
    runYield storage (visited ++ others) =
      (runYield storage visited).append (runYield (runStorage storage visited) others) := by
  induction visited generalizing storage with
  | nil => exact (Yield.empty_append _).symm
  | cons one rest ih =>
      rw [List.cons_append, runYield, ih, runYield, Yield.append_assoc]
      rfl

theorem runYield_concat (storage : Storage) (visited : List (Outline × MethodDefinition))
    (last : Outline × MethodDefinition) :
    runYield storage (visited ++ [last]) = (runYield storage visited).append
      (last.1.yield (runStorage storage visited) last.2) := by
  rw [runYield_append, runYield, runYield, Yield.append_empty]

end MemberGraph
