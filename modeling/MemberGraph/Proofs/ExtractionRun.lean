import MemberGraph.Proofs.Allocation

/-!
Whole runs of an extraction. What holds of the methods visited so far, of their counts and of the
catalog is kept over all types if it is kept by each method.
-/

set_option autoImplicit false

namespace MemberGraph

namespace Statistics

theorem merge_assoc (first second third : Statistics) :
    (first.merge second).merge third = first.merge (second.merge third) := by
  simp only [merge, Nat.add_assoc]

theorem merge_empty (statistics : Statistics) : statistics.merge {} = statistics := rfl

theorem empty_merge (statistics : Statistics) : merge {} statistics = statistics := by
  simp only [merge, Nat.zero_add]

end Statistics

namespace Analysis

open Catalog

def visits (loaded : List LoadedType) : List (TypeId × MethodDefinition) :=
  loaded.flatMap fun one => one.2.methods.map (one.1, ·)

/-- The successful extraction of one more method keeps `motive`, which speaks of the methods visited,
of the counts and of the catalog. -/
def KeptByExtraction (options : Options)
    (motive : List (TypeId × MethodDefinition) → Statistics → Catalog → Prop) : Prop :=
  ∀ {analysis : Analysis} {on : TypeId} {method : MethodDefinition}
    {done : List (TypeId × MethodDefinition)} {total statistics : Statistics},
    Ready analysis.catalog on →
    (analysis.extractMethod options on method).1 = .ok statistics →
    motive done total analysis.catalog →
    motive (done ++ [(on, method)]) (total.merge statistics)
      (analysis.extractMethod options on method).2.catalog

namespace KeptByExtraction

variable {options : Options} {motive : List (TypeId × MethodDefinition) → Statistics → Catalog → Prop}
  (kept : KeptByExtraction options motive)
include kept

theorem extractMethods {analysis : Analysis} {on : TypeId} (ready : Ready analysis.catalog on)
    {methods : List MethodDefinition} {done : List (TypeId × MethodDefinition)}
    {total statistics : Statistics}
    (succeeded : (analysis.extractMethods options on methods).1 = .ok statistics)
    (before : motive done total analysis.catalog) :
    motive (done ++ methods.map (on, ·)) (total.merge statistics)
      (analysis.afterMethods options on methods) := by
  induction methods generalizing analysis done total statistics with
  | nil =>
      cases succeeded
      simpa [afterMethods, Analysis.extractMethods, Statistics.merge_empty] using before
  | cons method rest ih =>
      obtain ⟨first, others, ok, okRest, rfl⟩ := extractMethods_ok succeeded
      rw [extractMethods_cons ok, List.map_cons, ← Statistics.merge_assoc, ← List.singleton_append,
        ← List.append_assoc]
      exact ih (ready.extractMethod ok) okRest (kept ready ok before)

theorem extractTypes {analysis : Analysis} {loaded : List LoadedType}
    (ready : ∀ one ∈ loaded, Ready analysis.catalog one.1)
    {done : List (TypeId × MethodDefinition)} {total statistics : Statistics}
    (succeeded : (analysis.extractTypes options loaded).1 = .ok statistics)
    (before : motive done total analysis.catalog) :
    motive (done ++ visits loaded) (total.merge statistics)
      (analysis.extractTypes options loaded).2.catalog := by
  induction loaded generalizing analysis done total statistics with
  | nil =>
      cases succeeded
      simpa [visits, Analysis.extractTypes, Statistics.merge_empty] using before
  | cons one rest ih =>
      obtain ⟨first, others, ok, okRest, rfl, final⟩ := extractTypes_ok succeeded
      have readyOne := ready one (by simp)
      have after := (analysis.extractType_eq options one.1 one.2).2
      have step : Grows options.callPolicy analysis.catalog
          (analysis.extractType options one.1 one.2).2.catalog :=
        extractType_grows readyOne.formed.sound one.1 one.2
      have readyNext := readyOne.extractMethods ok
      have here := kept.extractMethods readyOne ok before
      rw [← after] at here readyNext
      have there := ih (fun other listed => readyNext.elsewhere
        (step.defined (ready other (List.mem_cons_of_mem _ listed)).defined)) okRest here
      rw [final, ← Statistics.merge_assoc]
      simpa [visits, List.append_assoc] using there

/-- What holds after the first pass and is kept by each method holds after the second pass. -/
theorem extracted {metadata : Metadata} {statistics : Statistics}
    (succeeded : ((allocate {} metadata).2.extractTypes options (allocate {} metadata).1).1 =
      .ok statistics)
    (start : motive [] {} (allocate {} metadata).2.catalog) :
    motive (visits (allocate {} metadata).1) statistics
      ((allocate {} metadata).2.extractTypes options (allocate {} metadata).1).2.catalog := by
  have run := kept.extractTypes (fun one there => allocated_ready metadata there) succeeded start
  rwa [List.nil_append, Statistics.empty_merge] at run

end KeptByExtraction

end Analysis

end MemberGraph
