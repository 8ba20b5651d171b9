import MemberGraph.Proofs.NamedArchitecture

/-!
The order of the methods of a type. Methods that are no accessors neither read nor change which fields
store which properties, so they may be visited in any order among each other and among the accessors.
-/

set_option autoImplicit false

namespace MemberGraph

open Analysis

/-! ## Ordinary methods -/

theorem Statistics.merge_comm (first second : Statistics) :
    first.merge second = second.merge first := by
  simp only [Statistics.merge, Nat.add_comm]

structure Yield.Alike (one other : Yield) : Prop where
  log : one.log.Perm other.log
  statistics : one.statistics = other.statistics

namespace Yield.Alike

variable {first second third one other : Yield}

theorem refl (yield : Yield) : Alike yield yield := ⟨.refl _, rfl⟩

theorem symm (alike : Alike first second) : Alike second first :=
  ⟨alike.log.symm, alike.statistics.symm⟩

theorem trans (before : Alike first second) (after : Alike second third) : Alike first third :=
  ⟨before.log.trans after.log, before.statistics.trans after.statistics⟩

theorem append (left : Alike first second) (right : Alike one other) :
    Alike (first.append one) (second.append other) where
  log := left.log.append right.log
  statistics := by simp only [Yield.append, left.statistics, right.statistics]

theorem append_comm (first second : Yield) : Alike (first.append second) (second.append first) where
  log := List.perm_append_comm
  statistics := Statistics.merge_comm ..

theorem edgesOf (alike : Alike first second) (holder : String) :
    (first.log.edgesOf holder).Perm (second.log.edgesOf holder) :=
  (alike.log.filter _).map _

end Yield.Alike

namespace Outline

variable (outline : Outline) {method : MethodDefinition} (ordinary : method.isAccessor = false)
include ordinary

private theorem yield_of_ordinary (storage other : Storage) :
    outline.yield storage method = outline.yield other method := by
  unfold yield given
  cases method.body with
  | none => rfl
  | some body => simp only [ordinary, Bool.false_eq_true, if_false]

theorem storageAfter_of_ordinary (storage : Storage) :
    outline.storageAfter storage method = storage := by
  have untied : outline.tied? method = none := by
    simp only [tied?, convention?_of_not_accessor ordinary]
  unfold storageAfter storedBy
  rw [untied]
  exact ite_self storage

end Outline

section Runs

variable {visited others : List (Outline × MethodDefinition)}

private theorem runYield_of_ordinary (ordinary : ∀ one ∈ visited, one.2.isAccessor = false)
    (storage other : Storage) : runYield storage visited = runYield other visited := by
  induction visited generalizing storage other with
  | nil => rfl
  | cons one rest ih =>
      have first := ordinary one (by simp)
      simp only [runYield, one.1.storageAfter_of_ordinary first]
      rw [one.1.yield_of_ordinary first storage other,
        ih (fun other there => ordinary other (List.mem_cons_of_mem _ there)) storage other]

private theorem runYield_perm_of_ordinary (perm : visited.Perm others)
    (ordinary : ∀ one ∈ visited, one.2.isAccessor = false) (storage : Storage) :
    (runYield storage visited).Alike (runYield storage others) := by
  induction perm with
  | nil => exact .refl _
  | cons one _ ih =>
      have first := ordinary one (by simp)
      simp only [runYield, one.1.storageAfter_of_ordinary first]
      exact (Yield.Alike.refl _).append
        (ih fun other there => ordinary other (List.mem_cons_of_mem _ there))
  | swap one other rest =>
      have first := ordinary other (by simp)
      have second := ordinary one (by simp)
      simp only [runYield, one.1.storageAfter_of_ordinary second,
        other.1.storageAfter_of_ordinary first, ← Yield.append_assoc]
      exact (Yield.Alike.append_comm _ _).append (.refl _)
  | trans before _ ih ihToo =>
      exact (ih ordinary).trans (ihToo fun one there => ordinary one (before.mem_iff.mpr there))

def accessors (visited : List (Outline × MethodDefinition)) : List (Outline × MethodDefinition) :=
  visited.filter (·.2.isAccessor)

def ordinaries (visited : List (Outline × MethodDefinition)) : List (Outline × MethodDefinition) :=
  visited.filter (!·.2.isAccessor)

private theorem ordinaries_ordinary (visited : List (Outline × MethodDefinition)) :
    ∀ one ∈ ordinaries visited, one.2.isAccessor = false := by
  intro one there
  simpa using (List.mem_filter.mp there).2

/-- A run gives what the ordinary methods give, and what the accessors give without them. -/
theorem runYield_split (storage : Storage) (visited : List (Outline × MethodDefinition)) :
    (runYield storage visited).Alike
      ((runYield storage (ordinaries visited)).append (runYield storage (accessors visited))) := by
  induction visited generalizing storage with
  | nil => exact .refl _
  | cons one rest ih =>
      cases accessor : one.2.isAccessor with
      | false =>
          have keeps : ordinaries (one :: rest) = one :: ordinaries rest := by
            simp [ordinaries, accessor]
          have drops : accessors (one :: rest) = accessors rest := by simp [accessors, accessor]
          rw [keeps, drops]
          simp only [runYield, one.1.storageAfter_of_ordinary accessor, Yield.append_assoc]
          exact (Yield.Alike.refl _).append (ih storage)
      | true =>
          have drops : ordinaries (one :: rest) = ordinaries rest := by simp [ordinaries, accessor]
          have keeps : accessors (one :: rest) = one :: accessors rest := by
            simp [accessors, accessor]
          rw [keeps, drops]
          simp only [runYield]
          -- The storage has changed for the rest, but its ordinary methods yield the same.
          refine ((Yield.Alike.refl _).append (ih _)).trans ?_
          rw [runYield_of_ordinary (ordinaries_ordinary rest) _ storage, ← Yield.append_assoc,
            ← Yield.append_assoc]
          exact (Yield.Alike.append_comm _ _).append (.refl _)

private theorem runStorage_accessors (storage : Storage)
    (visited : List (Outline × MethodDefinition)) :
    runStorage storage visited = runStorage storage (accessors visited) := by
  induction visited generalizing storage with
  | nil => rfl
  | cons one rest ih =>
      cases accessor : one.2.isAccessor with
      | false =>
          have drops : accessors (one :: rest) = accessors rest := by simp [accessors, accessor]
          have kept := one.1.storageAfter_of_ordinary accessor storage
          rw [drops, ← ih]
          simp only [runStorage, List.foldl_cons, kept]
      | true =>
          have keeps : accessors (one :: rest) = one :: accessors rest := by
            simp [accessors, accessor]
          rw [keeps]
          exact ih _

/-- The same methods, with the accessors in the same order. -/
structure VisitsAlike (visited others : List (Outline × MethodDefinition)) : Prop where
  perm : visited.Perm others
  accessors : accessors visited = accessors others

theorem VisitsAlike.runYield (alike : VisitsAlike visited others) (storage : Storage) :
    (runYield storage visited).Alike (MemberGraph.runYield storage others) := by
  have ordinary : (ordinaries visited).Perm (ordinaries others) := alike.perm.filter _
  refine (runYield_split storage visited).trans (.trans ?_ (runYield_split storage others).symm)
  rw [alike.accessors]
  exact (runYield_perm_of_ordinary ordinary (ordinaries_ordinary visited) storage).append (.refl _)

theorem VisitsAlike.runStorage (alike : VisitsAlike visited others) (storage : Storage) :
    runStorage storage visited = MemberGraph.runStorage storage others := by
  rw [runStorage_accessors, alike.accessors, ← runStorage_accessors]

end Runs

/-! ## Definitions of members -/

theorem firstOf_append {α : Type} {name : α → String} (first second : List α) :
    firstOf name (first ++ second) =
      firstOf name first ++ (firstOf name second).filter fun value =>
        !first.any (name · = name value) := by
  induction first with
  | nil => simp [firstOf]
  | cons value rest ih =>
      rw [List.cons_append, firstOf, ih, firstOf, List.filter_append, List.filter_filter]
      simp only [List.cons_append, List.any_cons, Bool.not_or]
      congr 2
      refine List.filter_congr fun other _ => ?_
      simp [eq_comm]

def withoutMethod (given : String × MemberDefinition) : String × Option MemberDefinition :=
  (given.1, if given.2.isMethod then none else some given.2)

def othersOf (typeName : String) (members : List (String × MemberDefinition)) :
    List (String × MemberDefinition) :=
  (firstOf (·.2.fullName) members).filter fun given => !given.2.isMethod && given.1 = typeName

/-- Definitions that say the same of each type, but for what they say of methods. -/
structure MembersAlike (members others : List (String × MemberDefinition)) : Prop where
  first : ∀ name, (members.find? (·.2.fullName = name)).map withoutMethod =
    (others.find? (·.2.fullName = name)).map withoutMethod
  order : ∀ typeName, othersOf typeName members = othersOf typeName others

namespace MembersAlike

variable {members others first second : List (String × MemberDefinition)}

theorem refl (members : List (String × MemberDefinition)) : MembersAlike members members :=
  ⟨fun _ => rfl, fun _ => rfl⟩

theorem any (alike : MembersAlike members others) (name : String) :
    members.any (·.2.fullName = name) = others.any (·.2.fullName = name) := by
  have same := congrArg Option.isSome (alike.first name)
  simpa only [Option.isSome_map, List.isSome_find?] using same

theorem append (alike : MembersAlike members others) (alikeToo : MembersAlike first second) :
    MembersAlike (members ++ first) (others ++ second) where
  first name := by
    rw [List.find?_append, List.find?_append, Option.map_or, Option.map_or, alike.first,
      alikeToo.first]
  order typeName := by
    have front := alike.order typeName
    have back := alikeToo.order typeName
    unfold othersOf at front back ⊢
    rw [firstOf_append, firstOf_append, List.filter_append, List.filter_append, front,
      List.filter_comm _ _ (firstOf _ first), List.filter_comm _ _ (firstOf _ second), back]
    simp only [alike.any]

theorem of_perm {methods reordered : List MethodDefinition} (perm : methods.Perm reordered)
    (typeName : String) :
    MembersAlike (methods.map fun method => (typeName, .method method))
      (reordered.map fun method => (typeName, .method method)) := by
  have shown : ∀ (list : List MethodDefinition) (name : String),
      ((list.map fun method => (typeName, MemberDefinition.method method)).find?
        (·.2.fullName = name)).map withoutMethod =
          if list.any (·.fullName = name) then some (typeName, none) else none := by
    intro list name
    induction list with
    | nil => rfl
    | cons method rest ih =>
        rw [List.map_cons, List.find?_cons, List.any_cons]
        by_cases same : method.fullName = name
        · simp [MemberDefinition.fullName, same, withoutMethod, MemberDefinition.isMethod]
        · simpa [MemberDefinition.fullName, same] using ih
  have none : ∀ (on : String) (list : List MethodDefinition),
      othersOf on (list.map fun method => (typeName, MemberDefinition.method method)) = [] := by
    intro on list
    refine List.filter_eq_nil_iff.mpr fun given there => ?_
    obtain ⟨method, _, rfl⟩ := List.mem_map.mp
      (List.mem_of_find?_eq_some (find?_of_mem_firstOf there))
    simp [MemberDefinition.isMethod]
  constructor
  · intro name
    rw [shown, shown, perm.any_eq]
  · intro on
    rw [none, none]

end MembersAlike

namespace Metadata

variable {metadata other : Metadata}

section Alike

variable (alike : MembersAlike metadata.memberDefinitions other.memberDefinitions)
include alike

theorem declaresMethod_alike (typeName name : String) :
    metadata.declaresMethod typeName name = other.declaresMethod typeName name := by
  have shown : ∀ found : Option (String × MemberDefinition),
      (found.any fun member => member.2.isMethod && member.1 = typeName) =
        (found.map withoutMethod).any fun member => member.2.isNone && member.1 = typeName := by
    intro found
    cases found with
    | none => rfl
    | some given => cases isMethod : given.2.isMethod <;> simp [withoutMethod, isMethod]
  rw [declaresMethod, declaresMethod, declaresAmong, declaresAmong, shown, shown, alike.first]

theorem initialEdges_alike (name : String) :
    (metadata.memberDefinitions.find? (·.2.fullName = name)).elim [] (·.2.initialEdges) =
      (other.memberDefinitions.find? (·.2.fullName = name)).elim [] (·.2.initialEdges) := by
  have shown : ∀ found : Option (String × MemberDefinition),
      found.elim [] (·.2.initialEdges) =
        (found.map withoutMethod).elim [] fun member =>
          member.2.elim [] MemberDefinition.initialEdges := by
    intro found
    cases found with
    | none => rfl
    | some given =>
        obtain ⟨typeName, definition⟩ := given
        cases definition <;> rfl
  rw [shown, shown, alike.first]

theorem propertyOf?_alike (name : String) : metadata.propertyOf? name = other.propertyOf? name := by
  have shown : ∀ (declares : String → String → Bool) (found : Option (String × MemberDefinition)),
      (found.bind fun given => given.2.propertyOutline? (declares given.1)) =
        (found.map withoutMethod).bind fun given =>
          given.2.bind (·.propertyOutline? (declares given.1)) := by
    intro declares found
    cases found with
    | none => rfl
    | some given =>
        obtain ⟨typeName, definition⟩ := given
        cases definition <;> rfl
  have declares : metadata.declaresMethod = other.declaresMethod :=
    funext fun typeName => funext (declaresMethod_alike alike typeName)
  rw [propertyOf?, propertyOf?, shown, shown, alike.first, declares]

private theorem firstMembersOf_alike {α : Type} (typeName : String)
    {select : MemberDefinition → Option α} (onlyOthers : ∀ method, select (.method method) = none) :
    (metadata.firstMembersOf typeName).filterMap select =
      (other.firstMembersOf typeName).filterMap select := by
  have shown : ∀ members : List (String × MemberDefinition),
      (((firstOf (·.2.fullName) members).filter (·.1 = typeName)).map (·.2)).filterMap select =
        ((othersOf typeName members).map (·.2)).filterMap select := by
    intro members
    simp only [othersOf, List.filterMap_map, List.filterMap_filter]
    refine List.filterMap_congr fun given _ => ?_
    obtain ⟨owner, definition⟩ := given
    cases definition with
    | field => simp [MemberDefinition.isMethod]
    | method method => simp [MemberDefinition.isMethod, onlyOthers]
    | property => simp [MemberDefinition.isMethod]
  rw [firstMembersOf, firstMembersOf, firstMembers, firstMembers, shown metadata.memberDefinitions,
    shown other.memberDefinitions, alike.order]

theorem outline_alike (defines : metadata.defines = other.defines) (policy : CallPolicy)
    (typeName : String) : metadata.outline policy typeName = other.outline policy typeName := by
  have declares : metadata.declaresMethod typeName = other.declaresMethod typeName :=
    funext (declaresMethod_alike alike typeName)
  unfold outline
  congr 1
  · exact firstMembersOf_alike alike typeName fun _ => rfl
  · rw [declares]
    exact firstMembersOf_alike alike typeName fun _ => rfl
  · funext reference
    unfold resolves
    rw [defines]
    split
    · exact declaresMethod_alike alike _ _
    · rfl

end Alike

end Metadata

/-! ## Metadata with methods in another order -/

/-- The same type with its methods in another order, where those that are flagged as accessors keep
theirs. -/
structure TypeDefinition.MethodsReordered (definition other : TypeDefinition) : Prop where
  perm : definition.methods.Perm other.methods
  accessors : definition.methods.filter (·.isAccessor) = other.methods.filter (·.isAccessor)
  others : { definition with methods := [] } = { other with methods := [] }

def Metadata.MethodsReordered (metadata other : Metadata) : Prop :=
  List.Forall₂
    (fun assembly reordered => assembly.name = reordered.name ∧
      List.Forall₂ TypeDefinition.MethodsReordered assembly.types reordered.types)
    metadata.assemblies other.assemblies

theorem TypeDefinition.MethodsReordered.fullName {definition other : TypeDefinition}
    (reordered : definition.MethodsReordered other) : definition.fullName = other.fullName :=
  (TypeDefinition.mk.inj reordered.others).1

theorem TypeDefinition.MethodsReordered.membersAlike {definition other : TypeDefinition}
    (reordered : definition.MethodsReordered other) :
    MembersAlike (definition.memberDefinitions.map fun member => (definition.fullName, member))
      (other.memberDefinitions.map fun member => (other.fullName, member)) := by
  obtain ⟨fullName, _, _, fields, _, properties⟩ := TypeDefinition.mk.inj reordered.others
  simp only [TypeDefinition.memberDefinitions, List.map_append, List.map_map, ← fullName, ← fields,
    ← properties]
  exact ((MembersAlike.refl _).append (.of_perm reordered.perm _)).append (.refl _)

theorem VisitsAlike.append {visited others further furtherOthers : List (Outline × MethodDefinition)}
    (alike : VisitsAlike visited others) (alikeToo : VisitsAlike further furtherOthers) :
    VisitsAlike (visited ++ further) (others ++ furtherOthers) where
  perm := alike.perm.append alikeToo.perm
  accessors := by
    have first := alike.accessors
    have second := alikeToo.accessors
    simp only [MemberGraph.accessors, List.filter_append] at first second ⊢
    rw [first, second]

theorem TypeDefinition.MethodsReordered.visitsAlike {definition other : TypeDefinition}
    (reordered : definition.MethodsReordered other) (outline : Outline) :
    VisitsAlike (definition.methods.map (outline, ·)) (other.methods.map (outline, ·)) where
  perm := reordered.perm.map _
  accessors := by
    simp only [MemberGraph.accessors, List.filter_map, Function.comp_def, reordered.accessors]

namespace Metadata.MethodsReordered

variable {metadata other : Metadata} (reordered : metadata.MethodsReordered other)
include reordered

theorem definitions :
    List.Forall₂ TypeDefinition.MethodsReordered metadata.definitions other.definitions := by
  unfold Metadata.definitions
  unfold Metadata.MethodsReordered at reordered
  generalize metadata.assemblies = assemblies, other.assemblies = others at reordered ⊢
  induction reordered with
  | nil => exact .nil
  | cons first _ ih =>
      rw [List.flatMap_cons, List.flatMap_cons]
      exact List.rel_append first.2 ih

theorem firstOf_definitions :
    List.Forall₂ TypeDefinition.MethodsReordered (firstOf (·.fullName) metadata.definitions)
      (firstOf (·.fullName) other.definitions) := by
  have alike := reordered.definitions
  generalize metadata.definitions = definitions, other.definitions = others at alike ⊢
  induction alike with
  | nil => exact .nil
  | cons first _ ih =>
      refine .cons first (List.rel_filter (fun one another same => ?_) ih)
      simp [same.fullName, first.fullName]

theorem defines : metadata.defines = other.defines := by
  funext name
  have alike := reordered.definitions
  unfold Metadata.defines
  generalize metadata.definitions = definitions, other.definitions = others at alike ⊢
  induction alike with
  | nil => rfl
  | cons first _ ih => rw [List.any_cons, List.any_cons, ih, first.fullName]

theorem membersAlike : MembersAlike metadata.memberDefinitions other.memberDefinitions := by
  have alike := reordered.firstOf_definitions
  unfold Metadata.memberDefinitions
  generalize firstOf (·.fullName) metadata.definitions = definitions,
    firstOf (·.fullName) other.definitions = others at alike ⊢
  induction alike with
  | nil => exact .refl _
  | cons first _ ih =>
      rw [List.flatMap_cons, List.flatMap_cons]
      exact first.membersAlike.append ih

theorem visitsAlike (policy : CallPolicy) :
    VisitsAlike (metadata.visits policy) (other.visits policy) := by
  have outlines : metadata.outline policy = other.outline policy :=
    funext (outline_alike reordered.membersAlike reordered.defines policy)
  have alike := reordered.firstOf_definitions
  unfold Metadata.visits
  rw [outlines]
  generalize firstOf (·.fullName) metadata.definitions = definitions,
    firstOf (·.fullName) other.definitions = others at alike ⊢
  induction alike with
  | nil => exact ⟨.refl _, rfl⟩
  | cons first _ ih =>
      rw [List.flatMap_cons, List.flatMap_cons, first.fullName]
      exact (first.visitsAlike _).append ih

end Metadata.MethodsReordered

structure NamedMember.SameUpToOrder (one other : NamedMember) : Prop
    extends NamedMember.LinkedAlike one other where
  dependencies : one.dependencies.Perm other.dependencies

private theorem Metadata.MethodsReordered.sameUpToOrder {metadata other : Metadata}
    (reordered : metadata.MethodsReordered other) (options : Options) (name : String)
    (backedProperty : Option String) :
    (metadata.namedMember options name backedProperty).SameUpToOrder
      (other.namedMember options name backedProperty) := by
  have alike := reordered.membersAlike
  have visited := reordered.visitsAlike options.callPolicy
  have property := propertyOf?_alike alike name
  refine ⟨⟨?_, ?_, ?_, rfl⟩, ?_⟩
  · simp only [namedMember, property]
  · simp only [namedMember, property]
  · exact congrFun (visited.runStorage _) name
  · simp only [namedMember, edgesOf, initialEdges_alike alike name]
    exact ((visited.runYield _).edgesOf name).append_left _

/-- The order of methods makes no difference, as long as accessors keep theirs: an analysis succeeds
for the same metadata, counts the same, and gives the same members, up to the order of what each
depends on. -/
theorem build_methodsReordered {metadata other : Metadata}
    (reordered : metadata.MethodsReordered other) (options : Options) :
    let result := (Architecture.build options metadata).1
    let otherResult := (Architecture.build options other).1
    (result.isOk ↔ otherResult.isOk) ∧
      ∀ one another, result = .ok one → otherResult = .ok another →
        one.MembersAgree NamedMember.SameUpToOrder another ∧
          one.statistics = another.statistics := by
  have visited := reordered.visitsAlike options.callPolicy
  refine ⟨?_, fun one another built builtToo => ⟨?_, ?_⟩⟩
  · simp only [build_isOk_iff_visits, visited.perm.mem_iff]
  · refine membersAgree_of_metadata built builtToo (fun name => ?_) (visited.runStorage _)
      (reordered.sameUpToOrder options)
    simpa only [List.isSome_find?] using reordered.membersAlike.any name
  · rw [built_statistics built, built_statistics builtToo]
    exact (visited.runYield _).statistics

def Metadata.accessorsLast (metadata : Metadata) : Metadata where
  assemblies := metadata.assemblies.map fun assembly =>
    { assembly with
      types := assembly.types.map fun definition =>
        { definition with
          methods := definition.methods.filter (!·.isAccessor) ++
            definition.methods.filter (·.isAccessor) } }

private theorem Metadata.accessorsLast_reordered (metadata : Metadata) :
    metadata.MethodsReordered metadata.accessorsLast := by
  refine List.forall₂_map_right_iff.mpr (List.forall₂_same.mpr fun assembly _ => ⟨rfl, ?_⟩)
  refine List.forall₂_map_right_iff.mpr (List.forall₂_same.mpr fun definition _ => ⟨?_, ?_, rfl⟩)
  · exact (List.perm_append_comm.trans (List.filter_append_perm _ _)).symm
  · simp [List.filter_filter]

theorem build_methodsReordered_account :
    ∃ one another, (Architecture.build {} accountMetadata).1 = .ok one ∧
      (Architecture.build {} accountMetadata.accessorsLast).1 = .ok another ∧
      accountMetadata.MethodsReordered accountMetadata.accessorsLast ∧
      (one.catalog.member? ⟨1⟩).map (·.fullName) = some "Shop.Account::get_Balance()" ∧
      (another.catalog.member? ⟨1⟩).map (·.fullName) = some "Shop.Account::Fetch()" ∧
      one.MembersAgree NamedMember.SameUpToOrder another ∧
      one.statistics = another.statistics := by
  have reordered := accountMetadata.accessorsLast_reordered
  obtain ⟨one, built, first⟩ := @build_passes {} accountMetadata
    (fun one => (one.catalog.member? ⟨1⟩).map (·.fullName) = some "Shop.Account::get_Balance()")
    (by decide +kernel)
  obtain ⟨another, builtToo, second⟩ := @build_passes {} accountMetadata.accessorsLast
    (fun one => (one.catalog.member? ⟨1⟩).map (·.fullName) = some "Shop.Account::Fetch()")
    (by decide +kernel)
  obtain ⟨agree, counts⟩ := (build_methodsReordered reordered {}).2 one another built builtToo
  exact ⟨one, another, built, builtToo, reordered, of_decide_eq_true first, of_decide_eq_true second,
    agree, counts⟩

end MemberGraph
