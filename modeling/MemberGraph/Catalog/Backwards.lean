import MemberGraph.Catalog.Basic

/-!
Turning dependencies around. Every call is recorded at the method that is called, and every
dependency that leaves the type of the member that holds it becomes one between the two types.
-/

set_option autoImplicit false

namespace MemberGraph.Catalog

def heldDependencies (catalog : Catalog) : List (TypeId × Dependency) :=
  catalog.members.toList.flatMap fun member =>
    member.dependencies.toList.map fun dependency => (member.declaringType, dependency)

/-- The type that a dependency leads to: the type itself, or the type of the method that is
called. -/
def targetType? (catalog : Catalog) : Dependency → Option TypeId
  | .onType _ _ target => some target
  | .call _ target => (catalog.member? target).map (·.declaringType)

/-- The dependency between types that a held dependency amounts to, if it leaves its type. -/
def typeDependency? (catalog : Catalog) (holder : TypeId) (dependency : Dependency) :
    Option TypeDependency :=
  match catalog.targetType? dependency with
  | some target =>
    if holder = target then none
    else some { kind := dependency.kind, origin := holder, target, via := dependency }
  | none => none

def recordCall (catalog : Catalog) : Dependency → Catalog
  | .onType _ _ _ => catalog
  | .call origin target => catalog.addBackwards target (.call origin target)

/-- Records one held dependency backwards and, if it leaves its type, between the types; `count` is
the number of those recorded between types so far. -/
def linkHeld : Nat × Catalog → TypeId × Dependency → Nat × Catalog
  | (count, catalog), (holder, dependency) =>
    let recorded := catalog.recordCall dependency
    match recorded.typeDependency? holder dependency with
    | some between => (count + 1, recorded.addTypeDependency between)
    | none => (count, recorded)

def linkBackwards (catalog : Catalog) : Nat × Catalog :=
  catalog.heldDependencies.foldl linkHeld (0, catalog)

end MemberGraph.Catalog
