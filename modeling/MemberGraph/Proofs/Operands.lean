import MemberGraph.Analysis.Accessor

/-!
What the instructions of a body name. The operands are told by their constructors alone, apart from
the selectors of `Instruction`, so that statements about bodies do not rest on them.
-/

set_option autoImplicit false

namespace MemberGraph

def typeOperands : List Instruction → List TypeReference
  | [] => []
  | { operand := some (.type reference), .. } :: rest => reference :: typeOperands rest
  | _ :: rest => typeOperands rest

def fieldOperands : List Instruction → List FieldReference
  | [] => []
  | { operand := some (.field reference), .. } :: rest => reference :: fieldOperands rest
  | _ :: rest => fieldOperands rest

def methodOperands : List Instruction → List MethodReference
  | [] => []
  | { operand := some (.method reference), .. } :: rest => reference :: methodOperands rest
  | _ :: rest => methodOperands rest

/-- The methods that control is given to, and that are not only named. -/
def callOperands (instructions : List Instruction) : List MethodReference :=
  methodOperands (instructions.filter fun instruction =>
    instruction.opcode = .call ∨ instruction.opcode = .callvirt ∨ instruction.opcode = .newobj)

namespace Instruction

variable {instruction : Instruction}

theorem type?_eq_some_iff {reference : TypeReference} :
    instruction.type? = some reference ↔ instruction.operand = some (.type reference) := by
  unfold type?
  split
  · next operand => simp [operand]
  · next other => simpa using other reference

theorem field?_eq_some_iff {reference : FieldReference} :
    instruction.field? = some reference ↔ instruction.operand = some (.field reference) := by
  unfold field?
  split
  · next operand => simp [operand]
  · next other => simpa using other reference

theorem method?_eq_some_iff {reference : MethodReference} :
    instruction.method? = some reference ↔ instruction.operand = some (.method reference) := by
  unfold method?
  split
  · next operand => simp [operand]
  · next other => simpa using other reference

theorem storedField?_eq_some_iff {field : FieldReference} :
    instruction.storedField? = some field ↔
      (instruction.opcode = .stfld ∨ instruction.opcode = .stsfld) ∧
        instruction.operand = some (.field field) := by
  have stores : instruction.opcode.isStore ↔
      instruction.opcode = .stfld ∨ instruction.opcode = .stsfld := by
    cases instruction.opcode <;> simp [OpCode.isStore]
  rw [storedField?, Option.ite_none_right_eq_some, stores, field?_eq_some_iff]

end Instruction

private theorem select_eq_none {α : Type} {form : α → Operand} {select : Instruction → Option α}
    (selects : ∀ {instruction value},
      select instruction = some value ↔ instruction.operand = some (form value))
    {instruction : Instruction}
    (other : ∀ opcode value, instruction = { opcode, operand := some (form value) } → False) :
    select instruction = none := by
  refine Option.eq_none_iff_forall_ne_some.mpr fun value selected => ?_
  exact other instruction.opcode value (selects.mp selected ▸ rfl)

theorem typeOperands_eq (instructions : List Instruction) :
    typeOperands instructions = instructions.filterMap Instruction.type? := by
  fun_induction typeOperands instructions with
  | case1 => rfl
  | case2 opcode reference rest ih =>
      rw [List.filterMap_cons_some (Instruction.type?_eq_some_iff.mpr rfl), ih]
  | case3 instruction rest other ih =>
      rw [List.filterMap_cons_none (select_eq_none Instruction.type?_eq_some_iff other), ih]

theorem fieldOperands_eq (instructions : List Instruction) :
    fieldOperands instructions = instructions.filterMap Instruction.field? := by
  fun_induction fieldOperands instructions with
  | case1 => rfl
  | case2 opcode reference rest ih =>
      rw [List.filterMap_cons_some (Instruction.field?_eq_some_iff.mpr rfl), ih]
  | case3 instruction rest other ih =>
      rw [List.filterMap_cons_none (select_eq_none Instruction.field?_eq_some_iff other), ih]

theorem methodOperands_eq (instructions : List Instruction) :
    methodOperands instructions = instructions.filterMap Instruction.method? := by
  fun_induction methodOperands instructions with
  | case1 => rfl
  | case2 opcode reference rest ih =>
      rw [List.filterMap_cons_some (Instruction.method?_eq_some_iff.mpr rfl), ih]
  | case3 instruction rest other ih =>
      rw [List.filterMap_cons_none (select_eq_none Instruction.method?_eq_some_iff other), ih]

theorem callOperands_eq (body : MethodBody) :
    callOperands body.instructions = Analysis.calledMethods body := by
  rw [callOperands, methodOperands_eq, Analysis.calledMethods]
  congr 1
  refine List.filter_congr fun instruction _ => ?_
  cases instruction.opcode <;> rfl

end MemberGraph
