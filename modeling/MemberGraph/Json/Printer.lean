import MemberGraph.Json.Value

/-!
Writing JSON values: `Json.compact` on one line, `Json.pretty` with every element and every member
on a line of its own, indented by two blanks a level. Both escape only what has to be escaped.
-/

set_option autoImplicit false

namespace MemberGraph.Json

def hexDigit (value : Nat) : Char :=
  if value < 10 then Char.ofNat ('0'.toNat + value) else Char.ofNat ('a'.toNat + (value - 10))

def escapeChar (c : Char) : List Char :=
  if c == '"' then ['\\', '"']
  else if c == '\\' then ['\\', '\\']
  else if c == '\x08' then ['\\', 'b']
  else if c == '\t' then ['\\', 't']
  else if c == '\n' then ['\\', 'n']
  else if c == '\x0c' then ['\\', 'f']
  else if c == '\r' then ['\\', 'r']
  else if c.toNat < 0x20 then
    ['\\', 'u', '0', '0', hexDigit (c.toNat / 16), hexDigit (c.toNat % 16)]
  else [c]

/-- A string literal with its quotes. Half of a surrogate pair stands for a literal without text,
and so reads back as one. -/
def literalChars : Literal → List Char
  | some value => '"' :: value.toList.flatMap escapeChar ++ ['"']
  | none => ['"', '\\', 'u', 'd', '8', '0', '0', '"']

def naturalChars (value : Nat) : List Char := Nat.toDigits 10 value

def integerChars : Int → List Char
  | .ofNat value => naturalChars value
  | .negSucc value => '-' :: naturalChars (value + 1)

/-- A number; a scaled one is written with its exponent. -/
def numberChars : Number → List Char
  | .integer value => integerChars value
  | .scaled mantissa exponent => integerChars mantissa ++ 'e' :: integerChars exponent

mutual

def compactChars : Json → List Char
  | .null => ['n', 'u', 'l', 'l']
  | .bool true => ['t', 'r', 'u', 'e']
  | .bool false => ['f', 'a', 'l', 's', 'e']
  | .number value => numberChars value
  | .string literal => literalChars literal
  | .array elements => '[' :: compactElements elements ++ [']']
  | .object members => '{' :: compactMembers members ++ ['}']

def compactElements : List Json → List Char
  | [] => []
  | [value] => compactChars value
  | value :: rest => compactChars value ++ ',' :: compactElements rest

def compactMembers : List (Literal × Json) → List Char
  | [] => []
  | [(key, value)] => literalChars key ++ ':' :: compactChars value
  | (key, value) :: rest =>
    literalChars key ++ ':' :: compactChars value ++ ',' :: compactMembers rest

end

def indent (level : Nat) : List Char := List.replicate (2 * level) ' '

mutual

/-- A value over several lines; its first line is already indented, to `level`. -/
def prettyChars (level : Nat) : Json → List Char
  | .null => ['n', 'u', 'l', 'l']
  | .bool true => ['t', 'r', 'u', 'e']
  | .bool false => ['f', 'a', 'l', 's', 'e']
  | .number value => numberChars value
  | .string literal => literalChars literal
  | .array [] => ['[', ']']
  | .array (value :: rest) =>
    '[' :: '\n' :: prettyElements (level + 1) (value :: rest) ++ '\n' :: indent level ++ [']']
  | .object [] => ['{', '}']
  | .object (entry :: rest) =>
    '{' :: '\n' :: prettyMembers (level + 1) (entry :: rest) ++ '\n' :: indent level ++ ['}']

def prettyElements (level : Nat) : List Json → List Char
  | [] => []
  | [value] => indent level ++ prettyChars level value
  | value :: rest =>
    indent level ++ prettyChars level value ++ ',' :: '\n' :: prettyElements level rest

def prettyMembers (level : Nat) : List (Literal × Json) → List Char
  | [] => []
  | [(key, value)] => indent level ++ literalChars key ++ ':' :: ' ' :: prettyChars level value
  | (key, value) :: rest =>
    indent level ++ literalChars key ++ ':' :: ' ' :: prettyChars level value ++
      ',' :: '\n' :: prettyMembers level rest

end

def compact (value : Json) : String := String.ofList (compactChars value)

def pretty (value : Json) : String := String.ofList (prettyChars 0 value)

end MemberGraph.Json
