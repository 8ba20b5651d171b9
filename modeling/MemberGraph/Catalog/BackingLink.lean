import MemberGraph.Catalog.Basic

/-!
Backing links: a property and the field that stores it point at each other. A field stores one
property at most; a property may be given another field, which frees the one before.
-/

set_option autoImplicit false

namespace MemberGraph

def Member.withBackedProperty (member : Member) (backed : Option MemberId) : Member :=
  match member.role with
  | .field _ => { member with role := .field backed }
  | _ => member

def Member.withBackingField (member : Member) (field : MemberId) : Member :=
  match member.role with
  | .property links => { member with role := .property { links with backingField := some field } }
  | _ => member

namespace Catalog

/-- Whether a member is a field that is free or stores the property already. -/
def mayBack (catalog : Catalog) (field property : MemberId) : Bool :=
  match catalog.member? field with
  | some member => member.isField && member.backedProperty?.all (· == property)
  | none => false

def linksOf? (catalog : Catalog) (property : MemberId) : Option PropertyLinks := do
  (← catalog.member? property).property?

/-- Frees the field that stored a property before, unless it is the new one. -/
def freePrevious (catalog : Catalog) (previous : Option MemberId) (field : MemberId) : Catalog :=
  match previous with
  | some previous =>
    if previous = field then catalog
    else catalog.updateMember previous (·.withBackedProperty none)
  | none => catalog

/-- Lets a field store a property. The answer says whether the link stands; it is refused, and
nothing changes, if the field stores another property or one of the two is not what it should be. -/
def linkBacking (catalog : Catalog) (property field : MemberId) : Bool × Catalog :=
  match catalog.mayBack field property, catalog.linksOf? property with
  | true, some links =>
    let withProperty := catalog.updateMember property (·.withBackingField field)
    let freed := withProperty.freePrevious links.backingField field
    (true, freed.updateMember field (·.withBackedProperty (some property)))
  | _, _ => (false, catalog)

end Catalog

end MemberGraph
