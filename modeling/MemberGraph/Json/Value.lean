/-!
JSON values as they stand in a text: object members keep their order and may repeat a key, numbers
keep their exact value, and a string literal may stand for no text at all.
-/

set_option autoImplicit false

namespace MemberGraph

/-- A number as written: an integer, or a mantissa scaled by a power of ten when a fraction or an
exponent was given. Minus zero counts as the latter, so `integer` never needs a sign for zero. -/
inductive Number where
  | integer (value : Int)
  | scaled (mantissa exponent : Int)
deriving DecidableEq, Repr

/-- What a string literal stands for: its text, or nothing if an escape leaves half of a surrogate
pair alone. -/
abbrev Literal := Option String

inductive Json where
  | null
  | bool (value : Bool)
  | number (value : Number)
  | string (literal : Literal)
  | array (elements : List Json)
  | object (members : List (Literal × Json))
deriving Repr, Inhabited

namespace Number

/-- The least magnitude that a double of 53 bits rounds to infinity. -/
def doubleLimit : Nat := 1 <<< 1024 - 1 <<< 970

/-- A natural number rounded to 53 binary digits: to the nearest, a tie to the even neighbour. -/
def nearestDouble (value : Nat) : Nat :=
  let unit := 1 <<< (value.log2 - 52)
  let below := value / unit
  let excess := 2 * (value % unit)
  if excess < unit || (excess == unit && below % 2 == 0) then below * unit else (below + 1) * unit

/-- The decimal digits that lead a number, as many as stay below `2 ^ 64`, and how many digits
follow them. Nineteen digits always stay below, twenty may. -/
def leadingDigits (value : Nat) : Nat × Nat :=
  let beyond := (Nat.toDigits 10 value).length - 20
  let twenty := value / Nat.pow 10 beyond
  if twenty < UInt64.size then (twenty, beyond) else (twenty / 10, beyond + 1)

/-- Whether `mantissa * 10 ^ exponent` stays finite as a double. The product is taken of the double
nearest to the leading digits and the double nearest to the power of ten that is left, so close to
the limit the answer depends on how many digits were written. A power beyond the largest double is
refused before it is computed. -/
def isFiniteScaled (mantissa : Nat) (exponent : Int) : Bool :=
  let (leading, dropped) := leadingDigits mantissa
  let scale := exponent + dropped
  mantissa == 0 || scale < 0 ||
    (scale ≤ 308 && nearestDouble leading * nearestDouble (Nat.pow 10 scale.toNat) < doubleLimit)

def isFinite : Number → Bool
  | integer value => isFiniteScaled value.natAbs 0
  | scaled mantissa exponent => isFiniteScaled mantissa.natAbs exponent

end Number

namespace Json

def text (value : String) : Json := .string (some value)

def count (value : Nat) : Json := .number (.integer value)

def ofFields (fields : List (String × Json)) : Json :=
  .object (fields.map fun field => (some field.1, field.2))

mutual

/-- Whether a value can be taken in whole: at most `levels` containers nest, every literal has a
text and every number is finite. -/
def fits : Nat → Json → Bool
  | _, .null => true
  | _, .bool _ => true
  | _, .number value => value.isFinite
  | _, .string literal => literal.isSome
  | 0, .array _ => false
  | levels + 1, .array elements => fitsElements levels elements
  | 0, .object _ => false
  | levels + 1, .object members => fitsMembers levels members

def fitsElements : Nat → List Json → Bool
  | _, [] => true
  | levels, element :: rest => fits levels element && fitsElements levels rest

def fitsMembers : Nat → List (Literal × Json) → Bool
  | _, [] => true
  | levels, (key, value) :: rest => key.isSome && fits levels value && fitsMembers levels rest

end

end Json

end MemberGraph
