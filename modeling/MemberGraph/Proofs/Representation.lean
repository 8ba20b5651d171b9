import MemberGraph.Proofs.Steps

/-!
The representation invariant over whole analyses and sessions. An analysis goes through stages: it
enters type after type, then the fields, methods and properties of one type after the other, extracts
method after method and turns dependency after dependency around.
-/

set_option autoImplicit false

namespace MemberGraph

open Catalog

namespace Analysis

def typesLoaded (metadata : Metadata) : List LoadedType × Analysis :=
  loadTypes {} (typeDefinitions metadata)

/-- The catalogs that an analysis of metadata goes through. -/
inductive BuildStage (options : Options) (metadata : Metadata) : Catalog → Prop where
  | types {entered : List (String × TypeDefinition)}
      (first : entered <+: typeDefinitions metadata) :
      BuildStage options metadata (loadTypes {} entered).2.catalog
  | fields {done rest : List LoadedType} {on : TypeId} {definition : TypeDefinition}
      {fields : List FieldDefinition}
      (loaded : (typesLoaded metadata).1 = done ++ (on, definition) :: rest)
      (first : fields <+: definition.fields) :
      BuildStage options metadata
        (fields.foldl (·.loadField on ·) (done.foldl loadMembers (typesLoaded metadata).2)).catalog
  | methods {done rest : List LoadedType} {on : TypeId} {definition : TypeDefinition}
      {methods : List MethodDefinition}
      (loaded : (typesLoaded metadata).1 = done ++ (on, definition) :: rest)
      (first : methods <+: definition.methods) :
      BuildStage options metadata
        (methods.foldl (·.loadMethod on ·) (definition.fields.foldl (·.loadField on ·)
          (done.foldl loadMembers (typesLoaded metadata).2))).catalog
  | properties {done rest : List LoadedType} {on : TypeId} {definition : TypeDefinition}
      {properties : List PropertyDefinition}
      (loaded : (typesLoaded metadata).1 = done ++ (on, definition) :: rest)
      (first : properties <+: definition.properties) :
      BuildStage options metadata
        (properties.foldl (·.loadProperty on ·) (definition.methods.foldl (·.loadMethod on ·)
          (definition.fields.foldl (·.loadField on ·)
            (done.foldl loadMembers (typesLoaded metadata).2)))).catalog
  | extraction {done rest : List LoadedType} {on : TypeId} {definition : TypeDefinition}
      {methods : List MethodDefinition} {statistics : Statistics} {extracted : Analysis}
      (loaded : (allocate {} metadata).1 = done ++ (on, definition) :: rest)
      (succeeded : extractTypes (allocate {} metadata).2 options done = (.ok statistics, extracted))
      (first : methods <+: definition.methods) :
      BuildStage options metadata (extracted.extractMethods options on methods).2.catalog
  | backwards {statistics : Statistics} {extracted : Analysis} {held : List (TypeId × Dependency)}
      (succeeded : extractAll (allocate {} metadata).2 options (allocate {} metadata).1 =
        (.ok statistics, extracted))
      (wanted : options.linkBackwards) (first : held <+: extracted.catalog.heldDependencies) :
      BuildStage options metadata (held.foldl linkHeld (0, extracted.catalog)).2
  | finished : BuildStage options metadata (build {} options metadata).2.catalog

variable {options : Options} {metadata : Metadata} {policy : CallPolicy}

theorem allocated_changes (metadata : Metadata) :
    Changes policy ({} : Analysis).catalog (allocate {} metadata).2.catalog :=
  allocate_changes wellFormed_empty metadata

theorem extractTypes_changes (metadata : Metadata) (loaded : List LoadedType) :
    Changes options.callPolicy ({} : Analysis).catalog
      (extractTypes (allocate {} metadata).2 options loaded).2.catalog := by
  have allocated : Changes options.callPolicy _ _ := allocated_changes metadata
  have sound := (allocated.wellFormed wellFormed_empty).sound
  exact allocated.trans (extractTypes_grows sound loaded).changes

theorem extractAll_catalog (analysis : Analysis) (options : Options) (loaded : List LoadedType) :
    (analysis.extractAll options loaded).2.catalog =
      (analysis.extractTypes options loaded).2.catalog := by
  unfold extractAll
  split
  · next failed => rw [failed]
  · next succeeded => rw [succeeded]; rfl

/-- Members are entered type by type; the types that come later are there all the time. -/
theorem membersBefore_changes {done rest : List LoadedType} {loaded : LoadedType}
    (split : (typesLoaded metadata).1 = done ++ loaded :: rest) :
    Changes policy ({} : Analysis).catalog
        (done.foldl loadMembers (typesLoaded metadata).2).catalog ∧
      (done.foldl loadMembers (typesLoaded metadata).2).catalog.hasType loaded.1 := by
  have types : Changes policy ({} : Analysis).catalog (typesLoaded metadata).2.catalog :=
    loadTypes_changes (typeDefinitions metadata)
  have formed := types.wellFormed wellFormed_empty
  have known : ∀ one ∈ (typesLoaded metadata).1, (typesLoaded metadata).2.catalog.hasType one.1 :=
    loadTypes_known wellFormed_empty (typeDefinitions metadata)
  have members : Changes policy (typesLoaded metadata).2.catalog
      (done.foldl loadMembers (typesLoaded metadata).2).catalog :=
    foldl_loadMembers_changes formed done fun one there => known one (by simp [split, there])
  exact ⟨types.trans members, members.covers.hasType (known loaded (by simp [split]))⟩

section Members

variable {analysis : Analysis} {on : TypeId}
  (before : Changes policy ({} : Analysis).catalog analysis.catalog ∧ analysis.catalog.hasType on)
include before

theorem fields_changes (fields : List FieldDefinition) :
    Changes policy ({} : Analysis).catalog (fields.foldl (·.loadField on ·) analysis).catalog ∧
      (fields.foldl (·.loadField on ·) analysis).catalog.hasType on := by
  have changes : Changes policy analysis.catalog _ :=
    foldl_loadField_changes (before.1.wellFormed wellFormed_empty) before.2 fields
  exact ⟨before.1.trans changes, changes.covers.hasType before.2⟩

theorem methods_changes (methods : List MethodDefinition) :
    Changes policy ({} : Analysis).catalog (methods.foldl (·.loadMethod on ·) analysis).catalog ∧
      (methods.foldl (·.loadMethod on ·) analysis).catalog.hasType on := by
  have changes : Changes policy analysis.catalog _ :=
    foldl_loadMethod_changes (before.1.wellFormed wellFormed_empty) before.2 methods
  exact ⟨before.1.trans changes, changes.covers.hasType before.2⟩

theorem properties_changes (properties : List PropertyDefinition) :
    Changes policy ({} : Analysis).catalog
      (properties.foldl (·.loadProperty on ·) analysis).catalog := by
  have changes : Changes policy analysis.catalog _ :=
    foldl_loadProperty_changes (before.1.wellFormed wellFormed_empty) before.2 properties
  exact before.1.trans changes

end Members

theorem build_changes (options : Options) (metadata : Metadata) :
    Changes options.callPolicy ({} : Analysis).catalog (build {} options metadata).2.catalog := by
  have extracted : Changes options.callPolicy ({} : Analysis).catalog
      (extractAll (allocate {} metadata).2 options (allocate {} metadata).1).2.catalog := by
    rw [extractAll_catalog]
    exact extractTypes_changes metadata _
  unfold build
  dsimp only
  split
  · next failed => rw [failed] at extracted; exact extracted
  · next succeeded =>
      rw [succeeded] at extracted
      dsimp only [turnAround]
      split
      · exact extracted.trans (linkBackwards_changes (extracted.wellFormed wellFormed_empty))
      · exact extracted

/-- An analysis gives what was extracted, turned around if that is wanted; it fails where extraction
does. -/
theorem build_eq (options : Options) (metadata : Metadata) :
    let extracted := (allocate {} metadata).2.extractTypes options (allocate {} metadata).1
    (Architecture.build options metadata).1 = extracted.1.map fun statistics =>
      { catalog :=
          if options.linkBackwards then extracted.2.catalog.linkBackwards.2
          else extracted.2.catalog
        statistics } := by
  unfold Architecture.build Analysis.build extractAll
  dsimp only
  cases (allocate {} metadata).2.extractTypes options (allocate {} metadata).1 with
  | mk answer analysis =>
      cases answer with
      | error error => rfl
      | ok statistics =>
          dsimp only [turnAround, Except.map]
          split <;> rfl

theorem BuildStage.changes {catalog : Catalog} (stage : BuildStage options metadata catalog) :
    Changes options.callPolicy ({} : Analysis).catalog catalog := by
  cases stage with
  | types first => exact loadTypes_changes _
  | fields loaded first => exact (fields_changes (membersBefore_changes loaded) _).1
  | methods loaded first =>
      exact (methods_changes (fields_changes (membersBefore_changes loaded) _) _).1
  | properties loaded first =>
      exact properties_changes
        (methods_changes (fields_changes (membersBefore_changes loaded) _) _) _
  | @extraction done _ _ _ _ _ _ loaded succeeded first =>
      have extracted : Changes options.callPolicy _ _ := extractTypes_changes metadata done
      rw [succeeded] at extracted
      exact extracted.trans
        (extractMethods_grows (extracted.wellFormed wellFormed_empty).sound _ _).changes
  | @backwards _ extracted _ succeeded wanted first =>
      have reached : Changes options.callPolicy ({} : Analysis).catalog extracted.catalog := by
        have all : Changes options.callPolicy _ _ := extractTypes_changes metadata (allocate {} metadata).1
        rwa [← extractAll_catalog, succeeded] at all
      have formed := reached.wellFormed wellFormed_empty
      have there := heldDependencies_held formed
      exact reached.trans
        (foldl_linkHeld_changes formed 0 fun one listed => there one (first.subset listed))
  | finished => exact build_changes options metadata

end Analysis

/-- Every stage of an analysis is well formed. A session keeps a catalog well formed as long as its
steps name entries that are there, and so does adding any member that fits. -/
theorem wellFormed_throughout :
    (∀ (options : Options) (metadata : Metadata) (catalog : Catalog),
      Analysis.BuildStage options metadata catalog → catalog.WellFormed) ∧
    (∀ (catalog : Catalog) (step : Step),
      catalog.WellFormed → step.InRange catalog → (step.apply catalog).2.WellFormed) ∧
    ∀ (catalog : Catalog) (key : String) (make : MemberId → Member),
      catalog.WellFormed → catalog.Insertable key make →
        (catalog.addMember key make).2.WellFormed := by
  refine ⟨fun options metadata catalog stage => ?_, fun catalog step formed inRange => ?_,
    fun catalog key make formed insertable => ?_⟩
  · exact stage.changes.wellFormed wellFormed_empty
  · exact (step.effect formed.sound).wellFormed formed inRange
  · exact formed.addMember fun _ => insertable

/-- A type whose property is stored in a field, with a method that calls the getter and prints. -/
def orderType : TypeDefinition :=
  let order : TypeReference := { fullName := "Shop.Order" }
  let money : TypeReference := { fullName := "Shop.Money" }
  let console : TypeReference := { fullName := "Sys.Console" }
  let void : TypeReference := { fullName := "Sys.Void" }
  let getter : MethodDefinition :=
    { MethodDefinition.ofSignature order "get_Total" money [] with
      isGetter := true
      body := some { instructions :=
        [{ opcode := .ldfld, operand := some (.field (.ofName order "_total" money)) },
          { opcode := .ret }] } }
  { fullName := "Shop.Order"
    fields := [{ name := "_total", fullName := "Shop.Order::_total", fieldType := money }]
    methods :=
      [getter,
        { MethodDefinition.ofSignature order "Print" void [] with
          body := some
            { localVariableTypes := [money]
              instructions :=
                [{ opcode := .call, operand := some (.method getter.reference) },
                  { opcode := .call
                    operand := some (.method (.ofSignature console "WriteLine" void [money])) },
                  { opcode := .ret }] } }]
    properties :=
      [{ name := "Total", fullName := "Shop.Order::Total", propertyType := money
         getter := some getter.fullName }] }

def orderMetadata : Metadata := { assemblies := [{ name := "shop", types := [orderType] }] }

theorem wellFormed_throughout_order :
    let allocated := (Analysis.allocate {} orderMetadata).2
    let extracted := (allocated.extractMethods {} ⟨0⟩ (orderType.methods.take 1)).2.catalog
    let step : Step := .addDependencies ⟨2⟩ [.call ⟨2⟩ ⟨1⟩]
    let note := Analysis.fieldEntry ⟨0⟩ ⟨1⟩
      { name := "note", fullName := "Shop.Order::note", fieldType := { fullName := "Shop.Money" } }
    Analysis.BuildStage {} orderMetadata extracted ∧ extracted.WellFormed ∧
      step.InRange extracted ∧ (step.apply extracted).2.WellFormed ∧
      extracted.Insertable "Shop.Order::note" note ∧
      (extracted.addMember "Shop.Order::note" note).2.WellFormed := by
  intro allocated extracted step note
  have stage : Analysis.BuildStage {} orderMetadata extracted :=
    @Analysis.BuildStage.extraction {} orderMetadata [] [] ⟨0⟩ orderType _ {} allocated
      (by decide +kernel) rfl (List.take_prefix 1 _)
  have formed := wellFormed_throughout.1 _ _ _ stage
  have inRange : step.InRange extracted := by
    intro dependency there
    rw [List.mem_singleton.mp there]
    exact ⟨by decide +kernel, by decide +kernel⟩
  have insertable : extracted.Insertable "Shop.Order::note" note := by
    refine ⟨rfl, rfl, ⟨by decide +kernel, by decide +kernel, ?_, ?_, ?_⟩, ?_⟩
    · intro id there; cases there
    · intro dependency there; simp [note, Analysis.fieldEntry] at there
    · intro dependency there; simp [note, Analysis.fieldEntry] at there
    · intro links isProperty; cases isProperty
  exact ⟨stage, formed, inRange, wellFormed_throughout.2.1 _ _ formed inRange, insertable,
    wellFormed_throughout.2.2 _ _ _ formed insertable⟩

end MemberGraph
