import MemberGraph.Text.WordChar

/-!
Naming conventions that tie a member to the property it implements. Each convention maps a member
name to the name of the property, or to nothing if the name does not follow the convention. The
qualifier of an explicit interface implementation is kept: `Shop.ICart.get_Total` belongs to
`Shop.ICart.Total`.
-/

set_option autoImplicit false

namespace MemberGraph

inductive Convention where
  | getter
  | setter
  | field
deriving DecidableEq, Repr

namespace Convention

def afterMark? (mark input : List Char) : Option (List Char) :=
  if mark.isPrefixOf input ∧ mark.length < input.length then some (input.drop mark.length) else none

/-- Drops `mark` from the place after the longest qualifier that leaves a name behind the mark. A
qualifier is empty or ends in a dot; `fresh` says whether one may end here. -/
def dropMark? (mark : List Char) (fresh : Bool) : List Char → Option (List Char)
  | [] => none
  | c :: rest =>
    match dropMark? mark (c == '.') rest with
    | some name => some (c :: name)
    | none => if fresh then afterMark? mark (c :: rest) else none

/-- The property of an accessor that is marked by `mark`. Accessor names are of one line. -/
def accessorProperty? (mark name : List Char) : Option (List Char) :=
  if '\n' ∈ name then none else dropMark? mark true name

def storageSuffix : List Char := ">k__BackingField".toList

/-- The property of a compiler-made storage field, `<Name>k__BackingField`. -/
def storageProperty? : List Char → Option (List Char)
  | '<' :: rest =>
    let name := rest.take (rest.length - storageSuffix.length)
    if storageSuffix.isSuffixOf rest ∧ ¬name.isEmpty ∧ '\n' ∉ name then some name else none
  | _ => none

def capitalised? : List Char → Option (List Char)
  | c :: rest => if c.isAlpha ∧ rest.all Text.isWordChar then some (c.toUpper :: rest) else none
  | [] => none

/-- The property of a hand-written storage field, `_name` or `m_name`. -/
def prefixedProperty? : List Char → Option (List Char)
  | 'm' :: '_' :: rest => capitalised? rest
  | '_' :: rest => capitalised? rest
  | _ => none

def propertyChars? : Convention → List Char → Option (List Char)
  | getter, name => accessorProperty? "get_".toList name
  | setter, name => accessorProperty? "set_".toList name
  | field, name => (storageProperty? name).or (prefixedProperty? name)

def property? (convention : Convention) (name : String) : Option String :=
  (convention.propertyChars? name.toList).map String.ofList

end Convention

end MemberGraph
