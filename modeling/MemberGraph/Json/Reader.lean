import MemberGraph.Json.Value

/-!
Reading a strict JSON text. A reader takes the characters that are left and returns what it read
with the characters after it; `Json.parse?` asks that nothing but blanks is left.
-/

set_option autoImplicit false

namespace MemberGraph.Json

def isBlank (c : Char) : Bool := c == ' ' || c == '\t' || c == '\n' || c == '\r'

def skipBlanks (input : List Char) : List Char := input.dropWhile isBlank

/-! ## String literals -/

/-- One unit of a string literal: a character, or half of a surrogate pair. -/
inductive TextUnit where
  | char (value : Char)
  | half (code : Nat)
deriving DecidableEq, Repr

def TextUnit.ofCode (code : Nat) : TextUnit :=
  if 0xD800 ≤ code ∧ code ≤ 0xDFFF then .half code else .char (Char.ofNat code)

def pair? (leading trailing : Nat) : Option Char :=
  if leading < 0xDC00 ∧ 0xDC00 ≤ trailing then
    some (Char.ofNat (0x10000 + (leading - 0xD800) * 0x400 + (trailing - 0xDC00)))
  else
    none

/-- The text of the units; none if a half stands alone. -/
def joinUnits? : List TextUnit → Option (List Char)
  | [] => some []
  | .char c :: rest => (joinUnits? rest).map (c :: ·)
  | .half leading :: .half trailing :: rest =>
    match pair? leading trailing with
    | some c => (joinUnits? rest).map (c :: ·)
    | none => none
  | .half _ :: _ => none

def hexDigit? (c : Char) : Option Nat :=
  if '0' ≤ c ∧ c ≤ '9' then some (c.toNat - '0'.toNat)
  else if 'a' ≤ c ∧ c ≤ 'f' then some (c.toNat - 'a'.toNat + 10)
  else if 'A' ≤ c ∧ c ≤ 'F' then some (c.toNat - 'A'.toNat + 10)
  else none

def hexCode? (a b c d : Char) : Option Nat := do
  return (((← hexDigit? a) * 16 + (← hexDigit? b)) * 16 + (← hexDigit? c)) * 16 + (← hexDigit? d)

def escaped? : Char → Option Char
  | '"' => some '"'
  | '\\' => some '\\'
  | '/' => some '/'
  | 'b' => some '\x08'
  | 'f' => some '\x0c'
  | 'n' => some '\n'
  | 'r' => some '\r'
  | 't' => some '\t'
  | _ => none

/-- Reads the rest of a string literal, up to its closing quote. `units` holds what was read so
far, last unit first. Control characters have to be escaped. -/
def scanString (units : List TextUnit) : List Char → Option (List TextUnit × List Char)
  | [] => none
  | '"' :: rest => some (units.reverse, rest)
  | '\\' :: 'u' :: a :: b :: c :: d :: rest =>
    match hexCode? a b c d with
    | some code => scanString (.ofCode code :: units) rest
    | none => none
  | '\\' :: mark :: rest =>
    match escaped? mark with
    | some c => scanString (.char c :: units) rest
    | none => none
  | c :: rest => if c.toNat < 0x20 then none else scanString (.char c :: units) rest

def readLiteral (input : List Char) : Option (Literal × List Char) :=
  (scanString [] input).map fun (units, rest) => ((joinUnits? units).map String.ofList, rest)

/-! ## Numbers -/

def digitsValue (digits : List Char) : Nat :=
  digits.foldl (fun value c => value * 10 + (c.toNat - '0'.toNat)) 0

def readMinus : List Char → Bool × List Char
  | '-' :: rest => (true, rest)
  | input => (false, input)

def readDigits? (input : List Char) : Option (List Char × List Char) :=
  let digits := input.takeWhile Char.isDigit
  if digits.isEmpty then none else some (digits, input.dropWhile Char.isDigit)

/-- Reads the digits before the point: a zero stands alone. -/
def readWhole? (input : List Char) : Option (List Char × List Char) :=
  match readDigits? input with
  | some ('0' :: _ :: _, _) => none
  | result => result

def readFraction? : List Char → Option (Option (List Char) × List Char)
  | '.' :: rest => (readDigits? rest).map fun (digits, rest) => (some digits, rest)
  | input => some (none, input)

def readPower? (input : List Char) : Option (Int × List Char) :=
  let (minus, input) :=
    match input with
    | '+' :: rest => (false, rest)
    | input => readMinus input
  (readDigits? input).map fun (digits, rest) =>
    let value : Int := digitsValue digits
    (if minus then -value else value, rest)

def readExponent? : List Char → Option (Option Int × List Char)
  | 'e' :: rest => (readPower? rest).map fun (power, rest) => (some power, rest)
  | 'E' :: rest => (readPower? rest).map fun (power, rest) => (some power, rest)
  | input => some (none, input)

def numberOfParts (minus : Bool) (whole : List Char) (fraction : Option (List Char))
    (exponent : Option Int) : Number :=
  let decimals := fraction.getD []
  let magnitude := digitsValue (whole ++ decimals)
  let mantissa : Int := if minus then -(magnitude : Int) else magnitude
  if fraction.isNone ∧ exponent.isNone ∧ ¬(minus ∧ magnitude = 0) then .integer mantissa
  else .scaled mantissa (exponent.getD 0 - decimals.length)

def readNumber (input : List Char) : Option (Number × List Char) := do
  let (minus, input) := readMinus input
  let (whole, input) ← readWhole? input
  let (fraction, input) ← readFraction? input
  let (exponent, input) ← readExponent? input
  return (numberOfParts minus whole fraction exponent, input)

/-! ## Values -/

mutual

def readValue : Nat → List Char → Option (Json × List Char)
  | 0, _ => none
  | fuel + 1, input =>
    match skipBlanks input with
    | 'n' :: 'u' :: 'l' :: 'l' :: rest => some (.null, rest)
    | 't' :: 'r' :: 'u' :: 'e' :: rest => some (.bool true, rest)
    | 'f' :: 'a' :: 'l' :: 's' :: 'e' :: rest => some (.bool false, rest)
    | '"' :: rest => (readLiteral rest).map fun (literal, rest) => (.string literal, rest)
    | '[' :: rest =>
      match skipBlanks rest with
      | ']' :: rest => some (.array [], rest)
      | rest => (readElements fuel [] rest).map fun (elements, rest) => (.array elements, rest)
    | '{' :: rest =>
      match skipBlanks rest with
      | '}' :: rest => some (.object [], rest)
      | rest => (readMembers fuel [] rest).map fun (members, rest) => (.object members, rest)
    | rest => (readNumber rest).map fun (value, rest) => (.number value, rest)

/-- Reads the elements of an array, one at least, up to the closing bracket. `done` holds those
already read, last one first. -/
def readElements : Nat → List Json → List Char → Option (List Json × List Char)
  | 0, _, _ => none
  | fuel + 1, done, input =>
    match readValue fuel input with
    | none => none
    | some (value, rest) =>
      match skipBlanks rest with
      | ',' :: rest => readElements fuel (value :: done) rest
      | ']' :: rest => some ((value :: done).reverse, rest)
      | _ => none

def readMembers : Nat → List (Literal × Json) → List Char →
    Option (List (Literal × Json) × List Char)
  | 0, _, _ => none
  | fuel + 1, done, input =>
    match skipBlanks input with
    | '"' :: rest =>
      match readLiteral rest with
      | none => none
      | some (key, rest) =>
        match skipBlanks rest with
        | ':' :: rest =>
          match readValue fuel rest with
          | none => none
          | some (value, rest) =>
            match skipBlanks rest with
            | ',' :: rest => readMembers fuel ((key, value) :: done) rest
            | '}' :: rest => some (((key, value) :: done).reverse, rest)
            | _ => none
        | _ => none
    | _ => none

end

/-- Reads a text of characters that holds one value. Every recursive step but the one from a list
to its next value has consumed a character, so twice their number is fuel enough. -/
def parseChars? (input : List Char) : Option Json :=
  match readValue (2 * input.length + 1) input with
  | some (value, rest) => if (skipBlanks rest).isEmpty then some value else none
  | none => none

def parse? (text : String) : Option Json := parseChars? text.toList

end MemberGraph.Json
