import MemberGraph.Json.Record

/-!
The choices that an analysis leaves to its caller.
-/

set_option autoImplicit false

namespace MemberGraph

/-- What becomes of a call to a method that the catalog does not hold. -/
inductive CallPolicy where
  /-- The call is left out. -/
  | existingOnly
  /-- The method becomes a stub, if its type is one. -/
  | stubExternal
deriving DecidableEq, Repr, Inhabited

structure Options where
  stubExternalCalls : Bool := true
  linkBackwards : Bool := true
deriving DecidableEq, Repr, Inhabited

namespace Options

def minimal : Options where
  stubExternalCalls := false
  linkBackwards := false

def callPolicy (options : Options) : CallPolicy :=
  if options.stubExternalCalls then .stubExternal else .existingOnly

def toJson (options : Options) : Json :=
  .ofFields
    [("stub_external_calls", .bool options.stubExternalCalls),
      ("link_backwards", .bool options.linkBackwards)]

def ofJson? (json : Json) : Option Options := do
  let record ← json.record? ["stub_external_calls", "link_backwards"]
  return {
    stubExternalCalls := ← record.withDefault "stub_external_calls" true Json.bool?
    linkBackwards := ← record.withDefault "link_backwards" true Json.bool? }

end Options

end MemberGraph
