import MemberGraph.Metadata.Reference

/-!
Method bodies: the types of the local variables, and instructions of which only the operation code
and the symbol operand are kept.
-/

set_option autoImplicit false

namespace MemberGraph

/-- The operation codes that are told apart; all that refer to no symbol are `ret` or `other`. -/
inductive OpCode where
  | call | callvirt | newobj | ldftn | ldvirtftn
  | ldfld | ldflda | stfld | ldsfld | ldsflda | stsfld
  | box | castclass | isinst | newarr | ldtoken | initobj
  | ret | other
deriving DecidableEq, Repr, Inhabited

namespace OpCode

def isStore : OpCode → Bool
  | stfld | stsfld => true
  | _ => false

/-- Whether the operation transfers control to its operand, rather than only naming it. -/
def isMethodCall : OpCode → Bool
  | call | callvirt | newobj => true
  | _ => false

end OpCode

inductive Operand where
  | type (reference : TypeReference)
  | field (reference : FieldReference)
  | method (reference : MethodReference)
deriving DecidableEq, Repr, Inhabited

structure Instruction where
  opcode : OpCode
  operand : Option Operand := none
deriving DecidableEq, Repr, Inhabited

namespace Instruction

def method? (instruction : Instruction) : Option MethodReference :=
  match instruction.operand with
  | some (.method reference) => some reference
  | _ => none

def field? (instruction : Instruction) : Option FieldReference :=
  match instruction.operand with
  | some (.field reference) => some reference
  | _ => none

def type? (instruction : Instruction) : Option TypeReference :=
  match instruction.operand with
  | some (.type reference) => some reference
  | _ => none

def storedField? (instruction : Instruction) : Option FieldReference :=
  if instruction.opcode.isStore then instruction.field? else none

end Instruction

structure MethodBody where
  localVariableTypes : List TypeReference := []
  instructions : List Instruction := []
deriving DecidableEq, Repr, Inhabited

def MethodBody.usedTypes (body : MethodBody) : List TypeReference :=
  body.localVariableTypes ++ body.instructions.filterMap Instruction.type?

end MemberGraph
