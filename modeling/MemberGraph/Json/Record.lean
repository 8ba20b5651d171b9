import MemberGraph.Json.Value

/-!
Decoding JSON values. A structure is written either as an object, with its keys in any order and
further keys ignored, or as the array of its fields in their order of declaration. A field that has
a default may be left out: its key in an object, its place at the end of an array.
-/

set_option autoImplicit false

namespace MemberGraph

class Enumeration (α : Type) where
  /-- Every value. -/
  all : List α
  /-- The name that stands for a value. -/
  name : α → String

namespace Json

structure Record where
  fields : List (String × Json)
deriving Repr

def knownFields (names : List String) (members : List (Literal × Json)) : List (String × Json) :=
  members.filterMap fun (key, value) =>
    key.bind fun name => if name ∈ names then some (name, value) else none

/-- The fields of a structure with the declared `names`. Every key of an object has to be a text,
and a declared one may occur once; an array may not be longer than the declaration. -/
def record? (names : List String) : Json → Option Record
  | .object members =>
    let known := knownFields names members
    if members.all (·.1.isSome) ∧ (known.map (·.1)).Nodup then some ⟨known⟩ else none
  | .array elements =>
    if elements.length ≤ names.length then some ⟨names.zip elements⟩ else none
  | _ => none

namespace Record

def required {α : Type} (record : Record) (name : String) (decode : Json → Option α) : Option α :=
  (record.fields.lookup name).bind decode

def withDefault {α : Type} (record : Record) (name : String) (default : α)
    (decode : Json → Option α) : Option α :=
  match record.fields.lookup name with
  | some value => decode value
  | none => some default

end Record

def text? : Json → Option String
  | .string literal => literal
  | _ => none

def bool? : Json → Option Bool
  | .bool value => some value
  | _ => none

def count? : Json → Option Nat
  | .number (.integer (.ofNat value)) => some value
  | _ => none

def list? {α : Type} (decode : Json → Option α) : Json → Option (List α)
  | .array elements => elements.mapM decode
  | _ => none

def nullable? {α : Type} (decode : Json → Option α) : Json → Option (Option α)
  | .null => some none
  | value => (decode value).map some

def named? {α : Type} [Enumeration α] (name : String) : Option α :=
  (Enumeration.all : List α).find? fun value => Enumeration.name value == name

/-- The value of an enumeration: its name, or an object with the name as only key and no value. -/
def enum? {α : Type} [Enumeration α] : Json → Option α
  | .string (some name) => named? name
  | .object [(some name, .null)] => named? name
  | _ => none

def ofEnum {α : Type} [Enumeration α] (value : α) : Json := .text (Enumeration.name value)

def ofOption {α : Type} (encode : α → Json) : Option α → Json
  | some value => encode value
  | none => .null

def ofList {α : Type} (encode : α → Json) (values : List α) : Json := .array (values.map encode)

def presentField {α : Type} (name : String) (encode : α → Json) : Option α → List (String × Json)
  | some value => [(name, encode value)]
  | none => []

end Json

end MemberGraph
