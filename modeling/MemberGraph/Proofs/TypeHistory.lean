import MemberGraph.Proofs.AppendOnly
import MemberGraph.Proofs.FaithfulJournal

/-!
What a catalog knows of a type is told by the mentions of its name. The first mention makes the entry,
the first definition settles what the type is, and whatever comes after changes nothing. Which calls
mention which types is told from the calls alone, without the catalog.
-/

set_option autoImplicit false

namespace MemberGraph

open Catalog

/-! ## Calls -/

/-- A call that may enter types or members into a catalog. -/
inductive CatalogCall where
  | define (reference : TypeReference) (kind : TypeKind) (visibility : Visibility)
  | refer (reference : TypeReference)
  | stub (on : TypeId) (reference : MethodReference)
  | insert (key : String) (make : MemberId → Member)

namespace CatalogCall

def run (analysis : Analysis) : CatalogCall → Analysis
  | define reference kind visibility =>
    analysis.updateCatalog fun catalog => (catalog.defineType reference kind visibility).2
  | refer reference => (analysis.typeFor reference).2
  | stub on reference => (analysis.methodFor on reference).2
  | insert key make => analysis.updateCatalog fun catalog => (catalog.addMember key make).2

def runAll (calls : List CatalogCall) : Analysis := calls.foldl run {}

end CatalogCall

/-! ## Mentions -/

structure Mention where
  reference : TypeReference
  definition : Option (TypeKind × Visibility) := none
deriving DecidableEq, Repr

/-- Under which key a member is entered, whether it is a method, and on which type. -/
structure Place where
  key : String
  isMethod : Bool
  on : TypeId
deriving DecidableEq, Repr

namespace CatalogCall

/-- The place of the member that a call enters under the given id, if its key is new. -/
def place? (id : MemberId) : CatalogCall → Option Place
  | stub on reference => some ⟨reference.fullName, true, on⟩
  | insert key make => some ⟨key, (make id).isMethod, (make id).declaringType⟩
  | _ => none

def enter (places : List Place) (call : CatalogCall) : List Place :=
  match call.place? ⟨places.length⟩ with
  | some place => if places.any (·.key = place.key) then places else places ++ [place]
  | none => places

def places (calls : List CatalogCall) : List Place := calls.foldl enter []

/-- The types that a call mentions after earlier calls. A stub is asked for with the types of its
signature, unless its type has the method already. -/
def mentions (earlier : List CatalogCall) : CatalogCall → List Mention
  | define reference kind visibility => [{ reference, definition := some (kind, visibility) }]
  | refer reference => [{ reference }]
  | stub on reference =>
    if (places earlier).find? (·.key = reference.fullName) = some ⟨reference.fullName, true, on⟩ then
      []
    else (reference.returnType :: reference.parameters).map fun reference => { reference }
  | insert _ _ => []

def history (calls : List CatalogCall) : List Mention :=
  (withEarlier calls).flatMap fun given => given.2.mentions given.1

end CatalogCall

def firstMention? (history : List Mention) (name : String) : Option Mention :=
  history.find? (·.reference.fullName = name)

def firstDefinition? (history : List Mention) (name : String) :
    Option (TypeReference × TypeKind × Visibility) :=
  history.findSome? fun mention =>
    if mention.reference.fullName = name then mention.definition.map (mention.reference, ·) else none

/-! ## Attributes -/

structure TypeAttributes where
  isStub : Bool
  kind : TypeKind
  visibility : Visibility
  assembly : Option String
deriving DecidableEq, Repr

def TypeEntry.attributes (entry : TypeEntry) : TypeAttributes where
  isStub := entry.isStub
  kind := entry.kind
  visibility := entry.visibility
  assembly := entry.assembly

/-- What a history tells of a type from its first mention and its first definition. -/
def TypeAttributes.told (first : TypeReference) :
    Option (TypeReference × TypeKind × Visibility) → TypeAttributes
  | some (reference, kind, visibility) =>
    { isStub := false, kind, visibility, assembly := reference.assembly.or first.assembly }
  | none => { isStub := true, kind := .unknown, visibility := .pub, assembly := first.assembly }

/-- What is known of a type after one more mention. -/
def TypeAttributes.after (mention : Mention) : Option TypeAttributes → TypeAttributes
  | none => .told mention.reference (mention.definition.map (mention.reference, ·))
  | some known =>
    match mention.definition with
    | some (kind, visibility) =>
      if known.isStub then
        { isStub := false, kind, visibility,
          assembly := mention.reference.assembly.or known.assembly }
      else known
    | none => known

def attributes? (history : List Mention) (name : String) : Option TypeAttributes :=
  (firstMention? history name).map fun first => .told first.reference (firstDefinition? history name)

theorem firstDefinition?_eq_none_iff {history : List Mention} {name : String} :
    firstDefinition? history name = none ↔
      ∀ mention ∈ history, mention.reference.fullName = name → mention.definition = none := by
  simp [firstDefinition?]

private theorem firstDefinition?_of_unmentioned {history : List Mention} {name : String}
    (unmentioned : firstMention? history name = none) : firstDefinition? history name = none := by
  refine firstDefinition?_eq_none_iff.mpr fun mention there named => ?_
  exact absurd named (by simpa using List.find?_eq_none.mp unmentioned mention there)

theorem attributes?_concat (history : List Mention) (mention : Mention) (name : String) :
    attributes? (history ++ [mention]) name =
      if mention.reference.fullName = name then
        some (.after mention (attributes? history name))
      else attributes? history name := by
  have first : firstMention? (history ++ [mention]) name = (firstMention? history name).or
      (if mention.reference.fullName = name then some mention else none) := by
    simp [firstMention?, List.find?_append, List.find?_singleton]
  have definition : firstDefinition? (history ++ [mention]) name = (firstDefinition? history name).or
      (if mention.reference.fullName = name then mention.definition.map (mention.reference, ·)
        else none) := by
    simp [firstDefinition?, List.findSome?_append]
  rw [attributes?, attributes?, first, definition]
  split
  · cases mentioned : firstMention? history name with
    | none => rw [firstDefinition?_of_unmentioned mentioned]; rfl
    | some other =>
        -- A definition counts only if there was none before.
        cases firstDefinition? history name <;> cases named : mention.definition <;>
          simp [TypeAttributes.told, TypeAttributes.after, named]
  · rw [Option.or_none, Option.or_none]

/-! ## Types -/

namespace Catalog

variable {catalog : Catalog}

def attributes? (catalog : Catalog) (name : String) : Option TypeAttributes :=
  ((catalog.typeNamed? name).bind catalog.type?).map (·.attributes)

def mention (catalog : Catalog) (mention : Mention) : Catalog :=
  match mention.definition with
  | some (kind, visibility) => (catalog.defineType mention.reference kind visibility).2
  | none =>
    if (catalog.typeNamed? mention.reference.fullName).isSome then catalog
    else (catalog.addStubType mention.reference).2

/-- The types of a catalog are those that a history mentions, with the attributes that it tells. -/
structure Follows (history : List Mention) (catalog : Catalog) : Prop where
  indexed : catalog.TypesIndexed
  attributes? : ∀ name, catalog.attributes? name = MemberGraph.attributes? history name

theorem attributes?_of_named {name : String} {id : TypeId} {entry : TypeEntry}
    (named : catalog.typeNamed? name = some id) (found : catalog.type? id = some entry) :
    catalog.attributes? name = some entry.attributes := by
  simp [attributes?, named, found]

private theorem attributes?_addType (indexed : catalog.TypesIndexed) {reference : TypeReference}
    {kind : TypeKind} {visibility : Visibility} {isStub : Bool} (name : String) :
    (catalog.addType reference kind visibility isStub).2.attributes? name =
      if reference.fullName = name then
        some { isStub, kind, visibility, assembly := reference.assembly }
      else catalog.attributes? name := by
  rw [attributes?, typeNamed?_addType]
  split
  · simp [type?_addType, newType, TypeEntry.attributes]
  · cases named : catalog.typeNamed? name with
    | none => simp [attributes?, named]
    | some id =>
        obtain ⟨entry, found, _⟩ := indexed.typeNamed?_iff.mp named
        have there := (type?_addType_iff reference kind visibility isStub).mpr (.inr found)
        rw [attributes?_of_named named found, Option.bind_some, there, Option.map_some]

private theorem attributes?_promote (indexed : catalog.TypesIndexed) {one : Mention}
    {kind : TypeKind}
    {visibility : Visibility} {id : TypeId} (defines : one.definition = some (kind, visibility))
    (known : catalog.typeNamed? one.reference.fullName = some id) (name : String) :
    (catalog.updateType id (promote one.reference kind visibility)).attributes? name =
      if one.reference.fullName = name then some (.after one (catalog.attributes? name))
      else catalog.attributes? name := by
  obtain ⟨entry, found, fullName⟩ := indexed.typeNamed?_iff.mp known
  split
  · next same =>
      subst same
      rw [attributes?_of_named known found, attributes?, typeNamed?_updateType, known,
        Option.bind_some, type?_updateType, if_pos rfl, found]
      cases stub : entry.isStub <;>
        simp [promote, TypeAttributes.after, TypeEntry.attributes, stub, defines]
  · next apart =>
      cases named : catalog.typeNamed? name with
      | none => simp [attributes?, named]
      | some other =>
          -- The two names lead to different ids, and only one entry is changed.
          obtain ⟨otherEntry, otherFound, rfl⟩ := indexed.typeNamed?_iff.mp named
          have distinct : id ≠ other := by
            rintro rfl
            rw [found] at otherFound
            cases otherFound
            exact apart fullName.symm
          rw [attributes?, attributes?, typeNamed?_updateType, named, Option.bind_some,
            Option.bind_some, type?_updateType, if_neg distinct]

/-- A mention defines a known type, refers to a known type, or is the first of its name. -/
theorem mention_cases (catalog : Catalog) (one : Mention) :
    (∃ id kind visibility, one.definition = some (kind, visibility) ∧
      catalog.typeNamed? one.reference.fullName = some id ∧
      catalog.mention one = catalog.updateType id (promote one.reference kind visibility)) ∨
    (one.definition = none ∧ (∃ id, catalog.typeNamed? one.reference.fullName = some id) ∧
      catalog.mention one = catalog) ∨
    (catalog.typeNamed? one.reference.fullName = none ∧
      ∃ known : TypeAttributes, known = .after one none ∧ catalog.mention one =
        (catalog.addType one.reference known.kind known.visibility known.isStub).2) := by
  unfold mention
  cases named : one.definition with
  | none =>
      cases known : catalog.typeNamed? one.reference.fullName with
      | none => exact .inr (.inr ⟨rfl, _, rfl, by simp [TypeAttributes.after, named]; rfl⟩)
      | some id => exact .inr (.inl ⟨rfl, ⟨id, rfl⟩, rfl⟩)
  | some given =>
      obtain ⟨kind, visibility⟩ := given
      simp only [defineType]
      cases known : catalog.typeNamed? one.reference.fullName with
      | none => exact .inr (.inr ⟨rfl, _, rfl, by simp [TypeAttributes.after, named]; rfl⟩)
      | some id => exact .inl ⟨id, kind, visibility, rfl, rfl, rfl⟩

private theorem attributes?_mention (indexed : catalog.TypesIndexed) (one : Mention)
    (name : String) :
    (catalog.mention one).attributes? name =
      if one.reference.fullName = name then some (.after one (catalog.attributes? name))
      else catalog.attributes? name := by
  rcases catalog.mention_cases one with
    ⟨id, kind, visibility, defines, known, result⟩ | ⟨refers, ⟨id, known⟩, result⟩ |
      ⟨fresh, attributes, first, result⟩
  · rw [result]
    exact attributes?_promote indexed defines known name
  · obtain ⟨entry, found, _⟩ := indexed.typeNamed?_iff.mp known
    rw [result]
    split
    · next same =>
        subst same
        rw [attributes?_of_named known found, TypeAttributes.after, refers]
    · rfl
  · rw [result, attributes?_addType indexed]
    split
    · next same =>
        subst same
        have unknown : catalog.attributes? one.reference.fullName = none := by
          rw [attributes?, fresh, Option.bind_none, Option.map_none]
        rw [unknown, first]
        cases defines : one.definition <;> simp [TypeAttributes.after, TypeAttributes.told, defines]
    · rfl

theorem TypesIndexed.mention (indexed : catalog.TypesIndexed) (one : Mention) :
    (catalog.mention one).TypesIndexed := by
  rcases catalog.mention_cases one with
    ⟨id, kind, visibility, _, _, result⟩ | ⟨_, _, result⟩ | ⟨fresh, _, _, result⟩
  · rw [result]
    refine indexed.of_updated (updated_updateType fun entry _ => ?_)
    unfold promote
    split <;> exact ⟨rfl, rfl, rfl⟩
  · rwa [result]
  · rw [result]
    exact indexed.addType fresh

private theorem sameEntries_mention (one : Mention) :
    Analysis.SameEntries catalog (catalog.mention one) := by
  rcases catalog.mention_cases one with
    ⟨id, kind, visibility, _, _, result⟩ | ⟨_, _, result⟩ | ⟨_, _, _, result⟩ <;>
  · rw [result]
    exact ⟨rfl, rfl⟩

theorem Follows.mention {history : List Mention} (follows : catalog.Follows history) (one : Mention) :
    (catalog.mention one).Follows (history ++ [one]) where
  indexed := follows.indexed.mention one
  attributes? name := by
    rw [attributes?_mention follows.indexed, attributes?_concat, follows.attributes?]

theorem Follows.mentions {history : List Mention} (follows : catalog.Follows history)
    (more : List Mention) : (more.foldl Catalog.mention catalog).Follows (history ++ more) := by
  induction more generalizing history catalog with
  | nil => rwa [List.append_nil]
  | cons one rest ih =>
      have after := ih (follows.mention one)
      rwa [List.append_assoc] at after

theorem Follows.addMember {history : List Mention} (follows : catalog.Follows history)
    (key : String) (make : MemberId → Member) :
    (catalog.addMember key make).2.Follows history where
  indexed := follows.indexed.addMember key make
  attributes? name := by
    rw [← follows.attributes?]
    unfold Catalog.attributes?
    rw [typeNamed?_addMember]
    cases fresh : catalog.memberNamed? key with
    | some id => rw [addMember_of_known make fresh]
    | none =>
        cases catalog.typeNamed? name with
        | none => rfl
        | some id =>
            rw [Option.bind_some, Option.bind_some, type?_addMember make fresh]
            split
            · rw [Option.map_map]; rfl
            · rfl

/-! ## Members -/

def place? (catalog : Catalog) (key : String) : Option Place :=
  ((catalog.memberNamed? key).bind catalog.member?).map fun member =>
    { key, isMethod := member.isMethod, on := member.declaringType }

structure Placed (places : List Place) (catalog : Catalog) : Prop where
  size : catalog.members.size = places.length
  hasMember : ∀ {key id}, catalog.memberNamed? key = some id → catalog.hasMember id
  place? : ∀ key, catalog.place? key = places.find? (·.key = key)

theorem methodNamed?_isSome_iff (catalog : Catalog) (on : TypeId) (name : String) :
    (catalog.methodNamed? on name).isSome ↔ catalog.place? name = some ⟨name, true, on⟩ := by
  simp only [Option.isSome_iff_exists, methodNamed?_eq_some_iff, place?, Option.map_eq_some_iff,
    Option.bind_eq_some_iff, Place.mk.injEq, true_and]
  constructor
  · rintro ⟨id, named, member, found, placed⟩
    exact ⟨member, ⟨id, named, found⟩, placed⟩
  · rintro ⟨member, ⟨id, named, found⟩, placed⟩
    exact ⟨id, named, member, found, placed⟩

theorem Placed.of_sameEntries {new : Catalog} {places : List Place} (placed : catalog.Placed places)
    (same : Analysis.SameEntries catalog new) : new.Placed places where
  size := same.members ▸ placed.size
  hasMember named := by
    rw [same.memberNamed?] at named
    simpa only [Catalog.hasMember, same.members] using placed.hasMember named
  place? key := by
    have entries : new.member? = catalog.member? := by
      funext id
      simp only [Catalog.member?, same.members]
    rw [← placed.place?, Catalog.place?, Catalog.place?, same.memberNamed?, entries]

private theorem Placed.any_key {places : List Place} (placed : catalog.Placed places)
    (key : String) :
    places.any (·.key = key) = (catalog.memberNamed? key).isSome := by
  rw [← List.isSome_find?, ← placed.place?]
  cases named : catalog.memberNamed? key with
  | none => simp [Catalog.place?, named]
  | some id =>
      obtain ⟨member, found⟩ := hasMember_iff.mp (placed.hasMember named)
      simp [Catalog.place?, named, found]

theorem Placed.addMember {places : List Place} (placed : catalog.Placed places) (key : String)
    (make : MemberId → Member) :
    (catalog.addMember key make).2.Placed ((CatalogCall.insert key make).enter places) := by
  simp only [CatalogCall.enter, CatalogCall.place?, placed.any_key]
  cases fresh : catalog.memberNamed? key with
  | some id =>
      rw [addMember_of_known make fresh]
      exact placed
  | none =>
      simp only [Option.isSome_none, Bool.false_eq_true, if_false]
      have enters := Analysis.addMember_enters fresh make
      constructor
      · rw [enters.members, Array.size_push, placed.size, List.length_append, List.length_singleton]
      · intro name id named
        rw [memberNamed?_addMember make fresh] at named
        rw [hasMember_addMember make fresh]
        split at named
        · exact .inr (by rw [← Option.some.inj named])
        · exact .inl (placed.hasMember named)
      · intro name
        rw [List.find?_append, ← placed.place?, Catalog.place?, enters.memberNamed?]
        split
        · next same =>
            subst same
            simp [Catalog.place?, fresh, enters.member?, placed.size]
        · next apart =>
            rw [List.find?_singleton, if_neg (by simpa using apart), Option.or_none, Catalog.place?]
            cases named : catalog.memberNamed? name with
            | none => rfl
            | some id =>
                have inRange := hasMember_iff_lt.mp (placed.hasMember named)
                rw [Option.bind_some, Option.bind_some, enters.member?,
                  if_neg (Nat.ne_of_lt inRange)]

end Catalog

/-! ## Runs -/

private theorem Analysis.typeFor_catalog (analysis : Analysis) (reference : TypeReference) :
    (analysis.typeFor reference).2.catalog = analysis.catalog.mention { reference } := by
  cases known : analysis.catalog.typeNamed? reference.fullName with
  | none => rw [(typeFor_of_fresh known).2]; simp [Catalog.mention, known]
  | some id => rw [typeFor_of_known known]; simp [Catalog.mention, known]

private theorem Analysis.typesFor_catalog (analysis : Analysis) (references : List TypeReference) :
    (analysis.typesFor references).2.catalog =
      (references.map fun reference => { reference }).foldl Catalog.mention analysis.catalog := by
  induction references generalizing analysis with
  | nil => rfl
  | cons reference rest ih =>
      rw [List.map_cons, List.foldl_cons, ← typeFor_catalog, ← ih]
      rfl

namespace CatalogCall

variable {calls : List CatalogCall}

theorem runAll_concat (calls : List CatalogCall) (call : CatalogCall) :
    runAll (calls ++ [call]) = call.run (runAll calls) := by
  simp [runAll]

theorem places_concat (calls : List CatalogCall) (call : CatalogCall) :
    places (calls ++ [call]) = call.enter (places calls) := by
  simp [places]

theorem history_concat (calls : List CatalogCall) (call : CatalogCall) :
    history (calls ++ [call]) = history calls ++ call.mentions calls := by
  simp [history, withEarlier_concat]

private theorem stub_follows {analysis : Analysis} (placed : analysis.catalog.Placed (places calls))
    (follows : analysis.catalog.Follows (history calls)) (on : TypeId) (reference : MethodReference) :
    ((stub on reference).run analysis).catalog.Placed ((stub on reference).enter (places calls)) ∧
      ((stub on reference).run analysis).catalog.Follows
        (history calls ++ (stub on reference).mentions calls) := by
  have declared := analysis.catalog.methodNamed?_isSome_iff on reference.fullName
  rw [placed.place?] at declared
  rw [run, mentions]
  cases missing : analysis.catalog.methodNamed? on reference.fullName with
  | some id =>
      -- The method is there, so its key is taken and no type is asked for.
      have unchanged : analysis.methodFor on reference = (id, analysis) := by
        simp only [Analysis.methodFor, missing]
      have found := declared.mp (by rw [missing]; rfl)
      have taken : (places calls).any (·.key = reference.fullName) = true := by
        rw [← List.isSome_find?, found]
        rfl
      rw [unchanged, if_pos found, List.append_nil]
      simp only [enter, place?, taken, if_true]
      exact ⟨placed, follows⟩
  | none =>
      have notFound := mt declared.mpr (by rw [missing]; exact Bool.false_ne_true)
      have same : Analysis.SameEntries analysis.catalog (analysis.typesFor
          (reference.returnType :: reference.parameters)).2.catalog :=
        Analysis.typesFor_sameEntries _
      have typed := follows.mentions
        ((reference.returnType :: reference.parameters).map fun reference => { reference })
      rw [← Analysis.typesFor_catalog] at typed
      rw [if_neg notFound, Analysis.methodFor_of_missing missing]
      let make := Analysis.stubMethod reference on (analysis.typeFor reference.returnType).1
        ((analysis.typeFor reference.returnType).2.typesFor reference.parameters).1
      exact ⟨(placed.of_sameEntries same).addMember reference.fullName make,
        typed.addMember reference.fullName make⟩

private theorem run_follows {analysis : Analysis} (placed : analysis.catalog.Placed (places calls))
    (follows : analysis.catalog.Follows (history calls)) (call : CatalogCall) :
    (call.run analysis).catalog.Placed (call.enter (places calls)) ∧
      (call.run analysis).catalog.Follows (history calls ++ call.mentions calls) := by
  cases call with
  | define reference kind visibility =>
      exact ⟨placed.of_sameEntries (Catalog.sameEntries_mention ⟨reference, some (kind, visibility)⟩),
        follows.mention ⟨reference, some (kind, visibility)⟩⟩
  | refer reference =>
      rw [run, Analysis.typeFor_catalog]
      exact ⟨placed.of_sameEntries (Catalog.sameEntries_mention _), follows.mention _⟩
  | stub on reference => exact stub_follows placed follows on reference
  | insert key make =>
      refine ⟨placed.addMember key make, ?_⟩
      rw [mentions, List.append_nil]
      exact follows.addMember key make

private theorem runAll_follows (calls : List CatalogCall) :
    (runAll calls).catalog.Placed (places calls) ∧ (runAll calls).catalog.Follows (history calls) := by
  induction calls using List.reverseRecOn with
  | nil =>
      have formed := Catalog.wellFormed_empty
      exact ⟨⟨rfl, formed.sound.memberNamed?, fun key => rfl⟩,
        ⟨formed.typesIndexed, fun name => rfl⟩⟩
  | append_singleton calls call ih =>
      rw [runAll_concat, places_concat, history_concat]
      exact run_follows ih.1 ih.2 call

theorem run_retains (analysis : Analysis) (call : CatalogCall) :
    analysis.catalog.Retains (fun _ entry => entry.isStub) (call.run analysis).catalog := by
  cases call with
  | define reference kind visibility =>
      exact (Catalog.retains_defineType reference kind visibility).mono fun _ promoted => promoted.2
  | refer reference =>
      have grows : Catalog.Grows .existingOnly analysis.catalog (analysis.typeFor reference).2.catalog :=
        Analysis.typeFor_grows reference
      exact grows.extends.retains
  | stub on reference => exact (Analysis.methodFor_extends on reference).retains
  | insert key make => exact (Catalog.extends_addMember key make).retains

private theorem runAll_retains (earlier later : List CatalogCall) :
    (runAll earlier).catalog.Retains (fun _ entry => entry.isStub)
      (runAll (earlier ++ later)).catalog := by
  induction later using List.reverseRecOn with
  | nil => rw [List.append_nil]; exact (Catalog.Extends.refl _).retains
  | append_singleton later call ih =>
      rw [← List.append_assoc, runAll_concat]
      exact ih.trans (run_retains _ call)

theorem run_retained {calls earlier later : List CatalogCall} {call : CatalogCall}
    (split : calls = earlier ++ call :: later) :
    (call.run (runAll earlier)).catalog.Retains (fun _ entry => entry.isStub)
      (runAll calls).catalog := by
  have retained := runAll_retains (earlier ++ [call]) later
  rwa [runAll_concat, ← List.append_cons, ← split] at retained

end CatalogCall

/-! ## What a history tells -/

def Catalog.HasSignature (catalog : Catalog) (id : MemberId) (reference : MethodReference) : Prop :=
  ∃ method traits, catalog.member? id = some method ∧ method.role = .method traits ∧
    catalog.typeNamed? reference.returnType.fullName = some method.memberType ∧
    traits.parameters.map some = reference.parameters.map fun parameter =>
      catalog.typeNamed? parameter.fullName

theorem Catalog.HasSignature.retained {old new : Catalog} {promoted : TypeId → TypeEntry → Prop}
    {id : MemberId} {reference : MethodReference} (signed : old.HasSignature id reference)
    (retained : old.Retains promoted new) : new.HasSignature id reference := by
  obtain ⟨method, traits, found, isMethod, returning, taking⟩ := signed
  obtain ⟨later, there, extended⟩ := retained.member? found
  refine ⟨later, traits, there, ?_, ?_, ?_⟩
  · exact extended.role_of_method isMethod
  · rw [extended.memberType]
    exact retained.typeNamed? returning
  · rw [taking]
    refine List.map_congr_left fun parameter listed => ?_
    have known : old.typeNamed? parameter.fullName ∈ traits.parameters.map some := by
      rw [taking]
      exact List.mem_map_of_mem listed
    obtain ⟨type, _, named⟩ := List.mem_map.mp known
    rw [← named, retained.typeNamed? named.symm]

private theorem Analysis.methodFor_hasSignature {analysis : Analysis} {on : TypeId}
    {reference : MethodReference}
    (fresh : analysis.catalog.memberNamed? reference.fullName = none) :
    (analysis.methodFor on reference).2.catalog.HasSignature (analysis.methodFor on reference).1
      reference := by
  have missing : analysis.catalog.methodNamed? on reference.fullName = none := by
    simp [Catalog.methodNamed?, fresh]
  let typed := (analysis.typeFor reference.returnType).2.typesFor reference.parameters
  have same : SameEntries analysis.catalog typed.2.catalog :=
    (typeFor_sameEntries reference.returnType).trans (typesFor_sameEntries reference.parameters)
  have stillFresh := (same.memberNamed? reference.fullName).trans fresh
  have extended : (analysis.typeFor reference.returnType).2.catalog.Extends typed.2.catalog :=
    Grows.extends (typesFor_grows reference.parameters : Grows .existingOnly _ _)
  have returning := extended.typeNamed? (typeFor_named reference.returnType)
  have taking : typed.1.map some = _ := typesFor_named reference.parameters
  let make := stubMethod reference on (analysis.typeFor reference.returnType).1 typed.1
  rw [methodFor_of_missing missing]
  refine ⟨make ⟨typed.2.catalog.members.size⟩, { parameters := typed.1 }, ?_, rfl, ?_, ?_⟩
  · exact (member?_addMember_iff make stillFresh).mpr (.inl ⟨addMember_fst make stillFresh, rfl⟩)
  · exact (typeNamed?_addMember make _).trans returning
  · rw [taking]
    exact List.map_congr_left fun parameter _ => (typeNamed?_addMember make _).symm

theorem Catalog.Follows.told {catalog : Catalog} {history : List Mention} {name : String}
    {first : Mention} (follows : catalog.Follows history)
    (mentioned : firstMention? history name = some first) :
    ∃ id entry, catalog.typeNamed? name = some id ∧ catalog.type? id = some entry ∧
      entry.attributes = .told first.reference (firstDefinition? history name) := by
  have known := follows.attributes? name
  rw [MemberGraph.attributes?, mentioned, Option.map_some] at known
  obtain ⟨entry, found, told⟩ := Option.map_eq_some_iff.mp known
  obtain ⟨id, named, there⟩ := Option.bind_eq_some_iff.mp found
  exact ⟨id, entry, named, there, told⟩

/-- The types of a catalog are told by the mentions of their names in the calls that made it. A
mentioned name has one type, with the kind and the visibility of its first definition. Its assembly
is that of the first definition or else of the first mention. Without a definition it is a stub. The
ids that calls give for a name are all the same. -/
theorem types_follow_history (calls : List CatalogCall) :
    let catalog := (CatalogCall.runAll calls).catalog
    let history := CatalogCall.history calls
    (∀ name first, firstMention? history name = some first →
      ∃ id entry, catalog.typeNamed? name = some id ∧ catalog.type? id = some entry ∧
        entry.fullName = name ∧
        (∀ other twin, catalog.type? other = some twin → twin.fullName = name → other = id) ∧
        (entry.isStub ↔ ∀ mention ∈ history, mention.reference.fullName = name →
          mention.definition = none) ∧
        (∀ reference kind visibility,
          firstDefinition? history name = some (reference, kind, visibility) →
          entry.kind = kind ∧ entry.visibility = visibility ∧
            entry.assembly = reference.assembly.or first.reference.assembly) ∧
        (firstDefinition? history name = none →
          entry.kind = .unknown ∧ entry.visibility = .pub ∧
            entry.assembly = first.reference.assembly)) ∧
    (∀ id entry, catalog.type? id = some entry →
      ∃ mention ∈ history, mention.reference.fullName = entry.fullName) ∧
    (∀ earlier later reference kind visibility,
      calls = earlier ++ .define reference kind visibility :: later →
      catalog.typeNamed? reference.fullName =
        some ((CatalogCall.runAll earlier).catalog.defineType reference kind visibility).1) ∧
    (∀ earlier later reference, calls = earlier ++ .refer reference :: later →
      catalog.typeNamed? reference.fullName =
        some ((CatalogCall.runAll earlier).typeFor reference).1) ∧
    ∀ earlier later on reference, calls = earlier ++ .stub on reference :: later →
      (CatalogCall.runAll earlier).catalog.memberNamed? reference.fullName = none →
      catalog.HasSignature ((CatalogCall.runAll earlier).methodFor on reference).1 reference := by
  intro catalog history
  have follows : catalog.Follows history := (CatalogCall.runAll_follows calls).2
  have indexed := follows.indexed
  refine ⟨fun name first mentioned => ?_, fun id entry found => ?_,
    fun earlier later reference kind visibility split => ?_,
    fun earlier later reference split => ?_, fun earlier later on reference split fresh => ?_⟩
  · obtain ⟨id, entry, named, found, told⟩ := follows.told mentioned
    obtain ⟨same, there, fullName⟩ := indexed.typeNamed?_iff.mp named
    rw [found] at there
    cases there
    refine ⟨id, entry, named, found, fullName, fun other twin twinFound twinNamed => ?_, ?_, ?_, ?_⟩
    · have again := indexed.typeNamed?_iff.mpr ⟨twin, twinFound, twinNamed⟩
      exact Option.some.inj (again.symm.trans named)
    · have stub : entry.isStub = entry.attributes.isStub := rfl
      rw [stub, told, ← firstDefinition?_eq_none_iff]
      cases firstDefinition? history name <;> simp [TypeAttributes.told]
    · intro reference kind visibility defined
      rw [defined] at told
      exact ⟨congrArg (·.kind) told, congrArg (·.visibility) told, congrArg (·.assembly) told⟩
    · intro undefined
      rw [undefined] at told
      exact ⟨congrArg (·.kind) told, congrArg (·.visibility) told, congrArg (·.assembly) told⟩
  · have known := follows.attributes? entry.fullName
    rw [Catalog.attributes?_of_named (indexed.typeNamed?_iff.mpr ⟨entry, found, rfl⟩) found] at known
    obtain ⟨mention, mentioned, _⟩ := Option.map_eq_some_iff.mp known.symm
    exact ⟨mention, List.mem_of_find?_eq_some mentioned, by simpa using List.find?_some mentioned⟩
  · refine (CatalogCall.run_retained split).typeNamed? ?_
    exact (Catalog.typeNamed?_defineType ..).trans (if_pos rfl)
  · exact (CatalogCall.run_retained split).typeNamed? (Analysis.typeFor_named reference)
  · exact (Analysis.methodFor_hasSignature fresh).retained (CatalogCall.run_retained split)

def refundMethod : MethodReference :=
  .ofSignature { fullName := "Shop.Till" } "Refund"
    { fullName := "Shop.Receipt", assembly := some "Shop.Base" } [{ fullName := "Shop.Money" }]

/-- A stub mentions a type that is defined afterwards, twice. Asked for again, it mentions nothing. -/
def refundCalls : List CatalogCall :=
  [.define { fullName := "Shop.Till" } .classType .pub, .stub ⟨0⟩ refundMethod,
    .stub ⟨0⟩ { refundMethod with returnType := { fullName := "Shop.Voucher" } },
    .insert "Shop.Till::owner" (Analysis.stubMethod refundMethod ⟨0⟩ ⟨0⟩ []),
    .define { fullName := "Shop.Receipt" } .structType .internal,
    .define { fullName := "Shop.Receipt", assembly := some "Shop.Late" } .classType .pub]

theorem types_follow_history_refund :
    let catalog := (CatalogCall.runAll refundCalls).catalog
    let history := CatalogCall.history refundCalls
    firstMention? history "Shop.Receipt" = some { reference := refundMethod.returnType } ∧
      catalog.typeNamed? "Shop.Voucher" = none ∧
      (∃ id entry, catalog.typeNamed? "Shop.Receipt" = some id ∧ catalog.type? id = some entry ∧
        entry.kind = .structType ∧ entry.visibility = .internal ∧
        entry.assembly = some "Shop.Base") ∧
      catalog.HasSignature ⟨0⟩ refundMethod := by
  intro catalog history
  have first : firstMention? history "Shop.Receipt" =
      some { reference := refundMethod.returnType } := by decide +kernel
  have defined : firstDefinition? history "Shop.Receipt" =
      some ({ fullName := "Shop.Receipt" }, .structType, .internal) := by decide +kernel
  obtain ⟨told, _, _, _, signed⟩ := types_follow_history refundCalls
  obtain ⟨id, entry, named, found, _, _, _, attributes, _⟩ := told "Shop.Receipt" _ first
  refine ⟨first, by decide +kernel, ⟨id, entry, named, found, attributes _ _ _ defined⟩, ?_⟩
  exact signed [.define { fullName := "Shop.Till" } .classType .pub] (refundCalls.drop 2) ⟨0⟩
    refundMethod rfl (by decide +kernel)

end MemberGraph
