/-!
Full names. A type is `Space.Name`, a field or property `Space.Name::member`, a method
`Space.Name::member(Type1,Type2)`; a generic type has its arguments between angle brackets. This
module builds full names and takes them apart again.
-/

set_option autoImplicit false

namespace MemberGraph

def splitLast (mark : Char) : List Char → Option (List Char × List Char)
  | [] => none
  | c :: rest =>
    match splitLast mark rest with
    | some (before, after) => some (c :: before, after)
    | none => if c = mark then some ([], rest) else none

def afterColons : List Char → Option (List Char)
  | [] => none
  | c :: rest =>
    match afterColons rest with
    | some after => some after
    | none =>
      match c, rest with
      | ':', ':' :: after => some after
      | _, _ => none

namespace FullName

def ofMember (declaringType name : String) : String := declaringType ++ "::" ++ name

def commaSeparated : List String → String
  | [] => ""
  | [name] => name
  | name :: rest => name ++ "," ++ commaSeparated rest

/-- The full name of a method; the parameters are given by the full names of their types. -/
def ofMethod (declaringType name : String) (parameters : List String) : String :=
  declaringType ++ "::" ++ name ++ "(" ++ commaSeparated parameters ++ ")"

def beforeArguments (fullName : List Char) : List Char := fullName.takeWhile (· ≠ '<')

/-- Namespace and simple name of a type: they meet at the last dot outside the type arguments. -/
def spaceAndName? (fullName : List Char) : Option (List Char × List Char) :=
  (splitLast '.' (beforeArguments fullName)).map fun (before, after) =>
    (before, after ++ fullName.dropWhile (· ≠ '<'))

def namespaceOf (fullName : String) : String :=
  match spaceAndName? fullName.toList with
  | some (space, _) => String.ofList space
  | none => ""

def simpleNameOf (fullName : String) : String :=
  match spaceAndName? fullName.toList with
  | some (_, name) => String.ofList name
  | none => fullName

def beforeParameters (fullName : List Char) : List Char := fullName.takeWhile (· ≠ '(')

/-- The member name inside a full name: what follows the last double colon, without parameters. -/
def memberName (fullName : String) : String :=
  String.ofList (beforeParameters ((afterColons fullName.toList).getD fullName.toList))

def atBoundary (head : List Char) : Bool :=
  match head.getLast? with
  | none => true
  | some c => c == '.' || c == ':'

/-- Whether a full name, its parameters left out, ends in the non-empty `suffix` and the suffix
starts a segment of it. -/
def endsInSegment (fullName suffix : String) : Bool :=
  let path := beforeParameters fullName.toList
  let tail := suffix.toList
  !tail.isEmpty && tail.isSuffixOf path && atBoundary (path.take (path.length - tail.length))

end FullName

end MemberGraph
