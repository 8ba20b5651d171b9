import MemberGraph.Catalog.Basic

/-!
Looking for members of a type by name. A simple name may fit several members, so the answer tells
one candidate from none and from many.
-/

set_option autoImplicit false

namespace MemberGraph

/-- The outcome of a search that should give one result. -/
inductive Selection (α : Type) where
  | unique (value : α)
  | notFound
  | ambiguous (count : Nat)
deriving DecidableEq, Repr

namespace Selection

def among {α : Type} : List α → Selection α
  | [] => .notFound
  | [value] => .unique value
  | candidates => .ambiguous candidates.length

def unique? {α : Type} : Selection α → Option α
  | unique value => some value
  | _ => none

def isAmbiguous {α : Type} : Selection α → Bool
  | ambiguous _ => true
  | _ => false

end Selection

namespace Catalog

/-- The members declared on a type, in order of creation. -/
def declaredMembers (catalog : Catalog) (on : TypeId) : List Member :=
  match catalog.type? on with
  | some entry => entry.members.toList.filterMap catalog.member?
  | none => []

def declaredProperties (catalog : Catalog) (on : TypeId) : List Member :=
  (catalog.declaredMembers on).filter (·.isProperty)

def declaredFields (catalog : Catalog) (on : TypeId) : List Member :=
  (catalog.declaredMembers on).filter (·.isField)

def propertyNamed (catalog : Catalog) (on : TypeId) (name : String) : Selection MemberId :=
  .among (((catalog.declaredProperties on).filter (·.name == name)).map (·.id))

def propertyEnding (catalog : Catalog) (on : TypeId) (suffix : String) : Selection MemberId :=
  .among
    (((catalog.declaredProperties on).filter fun property =>
      FullName.endsInSegment property.fullName suffix).map (·.id))

def fieldNamed (catalog : Catalog) (on : TypeId) (name : String) : Selection MemberId :=
  .among (((catalog.declaredFields on).filter (·.name == name)).map (·.id))

end Catalog

end MemberGraph
