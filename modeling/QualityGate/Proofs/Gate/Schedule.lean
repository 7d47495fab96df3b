import QualityGate.Proofs.Findings.Project
import QualityGate.Proofs.Gate.CircularImports
import QualityGate.Proofs.Report.RollUp
import QualityGate.Proofs.Violation.Order

/-!
The order in which the files of a project are checked. What the parts of the gate find can be sorted
in one way only, and the counters are rolled up in any order, so a report does not show in which
order its parts have come in.
-/
namespace QualityGate.Gate

open Violation

variable (settings : Settings) (tables : Tables) (disk : Disk) (root : Path)

/-- All that a run finds can be sorted in one way only. -/
theorem findings_found : Findings (fun _ => True) (found settings tables disk root) := by
  refine .append (.append (.append (.append ?_ ?_) ?_) ?_) ?_
  · exact (findings_broken settings disk root).mono fun _ _ => trivial
  · exact (findings_components settings tables _).mono fun _ _ => trivial
  · exact (findings_typedViolations settings tables disk root _).mono fun _ _ => trivial
  · exact (DesignToken.findings_unused settings _).mono fun _ _ => trivial
  · exact (Graph.findings_check disk settings _ root _).mono fun _ _ => trivial

def componentAnalyses : List FileAnalysis :=
  (Sources.load settings disk root).components.map (FileAnalysis.of settings tables)

/-- The report on a project whose violations and file analyses have come in in the given order. -/
def gather (vs : List Violation) (analyses : List FileAnalysis) : Report :=
  Report.of root.text
    { (analyze settings tables disk root).metrics with
      utilityClasses := (analyses.map (·.utilityClasses.2)).foldl .merge .zero
      tokens := (analyses.map (·.tokens.2)).foldl .merge .zero }
    vs

theorem analyze_eq_gather : analyze settings tables disk root =
    gather settings tables disk root (found settings tables disk root)
      (componentAnalyses settings tables disk root) :=
  rfl

theorem gather_of_perm {vs : List Violation} {analyses : List FileAnalysis}
    (hv : vs.Perm (found settings tables disk root))
    (ha : analyses.Perm (componentAnalyses settings tables disk root)) :
    gather settings tables disk root vs analyses = analyze settings tables disk root := by
  have hsort := sort_eq_of_perm (findings_found settings tables disk root).sortable hv
  have hclasses :=
    UtilityClass.Metrics.foldl_merge_of_perm (ha.map (·.utilityClasses.2)) .zero
  have htokens := DesignToken.Metrics.foldl_merge_of_perm (ha.map (·.tokens.2)) .zero
  rw [analyze_eq_gather, gather, gather, Report.of, Report.of, hsort, hclasses, htokens]

/-- A report does not show in which order its parts have come in. Violations of one severity for
each rule whose lines and columns count from one on have one sorted order, in which each of them is
listed as often as it was found; the counters of files have the same totals in any order; and so the
report on a project is the same for all orders of what its parts find and count. -/
theorem report_independent_of_order :
    (∀ vs ws : List Violation, Sortable vs → ws.Perm vs →
      sort ws = sort vs ∧ (sort vs).Perm vs ∧ (sort vs).Pairwise fun v w => v.key ≤ w.key) ∧
    (∀ (ms ns : List UtilityClass.Metrics) (m : UtilityClass.Metrics), ns.Perm ms →
      ns.foldl .merge m = ms.foldl .merge m) ∧
    (∀ (ms ns : List DesignToken.Metrics) (m : DesignToken.Metrics), ns.Perm ms →
      ns.foldl .merge m = ms.foldl .merge m) ∧
    ∀ settings tables disk root,
      Sortable (found settings tables disk root) ∧
      ∀ vs analyses, vs.Perm (found settings tables disk root) →
        analyses.Perm (componentAnalyses settings tables disk root) →
          gather settings tables disk root vs analyses = analyze settings tables disk root := by
  refine ⟨fun vs ws h hp => ?_, fun ms ns m hp => ?_, fun ms ns m hp => ?_,
    fun settings tables disk root => ⟨?_, fun vs analyses hv ha => ?_⟩⟩
  · exact ⟨sort_eq_of_perm h hp, perm_sort vs, pairwise_sort vs⟩
  · exact UtilityClass.Metrics.foldl_merge_of_perm hp m
  · exact DesignToken.Metrics.foldl_merge_of_perm hp m
  · exact (findings_found settings tables disk root).sortable
  · exact gather_of_perm settings tables disk root hv ha

/-- A breach of the project and one of a file, two files with classes, two with tokens, and all that
is found in two files that import each other, each in both orders. -/
theorem report_of_reversed :
    let cycle := Rule.circularDependency.breach "a -> b -> a"
    let px := ((Rule.noHardcodedPx.breach "x").located ⟨9, 1⟩).inFile ⟨"/p/b.tsx"⟩
    let order := found .default .default pair ⟨"/p"⟩
    let analyses := componentAnalyses .default .default pair ⟨"/p"⟩
    sort [cycle, px] = sort [px, cycle] ∧
      [⟨2, 1, 3, 1, 6⟩, ⟨4, 0, 1, 2, 3⟩].foldl UtilityClass.Metrics.merge .zero =
        [⟨4, 0, 1, 2, 3⟩, ⟨2, 1, 3, 1, 6⟩].foldl .merge .zero ∧
      [⟨2, 1⟩, ⟨0, 3⟩].foldl DesignToken.Metrics.merge .zero =
        [⟨0, 3⟩, ⟨2, 1⟩].foldl .merge .zero ∧
      gather .default .default pair ⟨"/p"⟩ order.reverse analyses.reverse =
        analyze .default .default pair ⟨"/p"⟩ := by
  intro cycle px order analyses
  obtain ⟨hsort, hclasses, htokens, hgather⟩ := report_independent_of_order
  have hsortable : Sortable [px, cycle] := ⟨by decide, by decide⟩
  refine ⟨(hsort _ _ hsortable (.swap ..)).1, hclasses _ _ _ (.swap ..),
    htokens _ _ _ (.swap ..), ?_⟩
  exact (hgather _ _ _ _).2 _ _ order.reverse_perm analyses.reverse_perm

end QualityGate.Gate
