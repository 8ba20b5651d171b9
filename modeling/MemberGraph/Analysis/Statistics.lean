import MemberGraph.Json.Record

/-!
What an extraction counts.
-/

set_option autoImplicit false

namespace MemberGraph

structure Statistics where
  /-- Method definitions that were scanned. -/
  methods : Nat := 0
  signatureDependencies : Nat := 0
  bodyTypeDependencies : Nat := 0
  callDependencies : Nat := 0
  /-- Method operands that led to no method. -/
  unresolvedCalls : Nat := 0
  /-- Accessors that were tied to a property. -/
  linkedAccessors : Nat := 0
  /-- Accessors that were not. -/
  unlinkedAccessors : Nat := 0
  /-- Accessors that were tied to a property which has a backing field. -/
  backingFieldsLinked : Nat := 0
  /-- Calls whose result is stored in a field that belongs to a property. -/
  backingFieldCalls : Nat := 0
deriving DecidableEq, Repr, Inhabited

namespace Statistics

def merge (left right : Statistics) : Statistics where
  methods := left.methods + right.methods
  signatureDependencies := left.signatureDependencies + right.signatureDependencies
  bodyTypeDependencies := left.bodyTypeDependencies + right.bodyTypeDependencies
  callDependencies := left.callDependencies + right.callDependencies
  unresolvedCalls := left.unresolvedCalls + right.unresolvedCalls
  linkedAccessors := left.linkedAccessors + right.linkedAccessors
  unlinkedAccessors := left.unlinkedAccessors + right.unlinkedAccessors
  backingFieldsLinked := left.backingFieldsLinked + right.backingFieldsLinked
  backingFieldCalls := left.backingFieldCalls + right.backingFieldCalls

def toJson (statistics : Statistics) : Json :=
  .ofFields
    [("methods", .count statistics.methods),
      ("signature_dependencies", .count statistics.signatureDependencies),
      ("body_type_dependencies", .count statistics.bodyTypeDependencies),
      ("call_dependencies", .count statistics.callDependencies),
      ("unresolved_calls", .count statistics.unresolvedCalls),
      ("linked_accessors", .count statistics.linkedAccessors),
      ("unlinked_accessors", .count statistics.unlinkedAccessors),
      ("backing_fields_linked", .count statistics.backingFieldsLinked),
      ("backing_field_calls", .count statistics.backingFieldCalls)]

def ofJson? (json : Json) : Option Statistics := do
  let record ← json.record?
    ["methods", "signature_dependencies", "body_type_dependencies", "call_dependencies",
      "unresolved_calls", "linked_accessors", "unlinked_accessors", "backing_fields_linked",
      "backing_field_calls"]
  return {
    methods := ← record.required "methods" Json.count?
    signatureDependencies := ← record.required "signature_dependencies" Json.count?
    bodyTypeDependencies := ← record.required "body_type_dependencies" Json.count?
    callDependencies := ← record.required "call_dependencies" Json.count?
    unresolvedCalls := ← record.required "unresolved_calls" Json.count?
    linkedAccessors := ← record.required "linked_accessors" Json.count?
    unlinkedAccessors := ← record.required "unlinked_accessors" Json.count?
    backingFieldsLinked := ← record.required "backing_fields_linked" Json.count?
    backingFieldCalls := ← record.required "backing_field_calls" Json.count? }

def counts (statistics : Statistics) : List Nat :=
  [statistics.methods, statistics.signatureDependencies, statistics.bodyTypeDependencies,
    statistics.callDependencies, statistics.unresolvedCalls, statistics.linkedAccessors,
    statistics.unlinkedAccessors, statistics.backingFieldsLinked, statistics.backingFieldCalls]

/-- The counts from their JSON form, if each fits into a word of 64 bits. -/
def ofWords? (json : Json) : Option Statistics :=
  (ofJson? json).filter fun statistics => statistics.counts.all (· < UInt64.size)

end Statistics

end MemberGraph
