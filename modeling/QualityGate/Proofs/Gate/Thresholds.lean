import QualityGate.Proofs.Findings.Thresholds
import QualityGate.Proofs.Gate.CircularImports
import QualityGate.Proofs.Report.RollUp

/-!
Higher limits for a whole project. The sources, the graphs and the counters do not depend on limits,
so a report under higher limits lists less, and shows the same counters.
-/
namespace QualityGate

open Violation

namespace Gate

variable {settings : Settings} {loose : Thresholds} {tables : Tables} {disk : Disk} {root : Path}

theorem sources_withThresholds :
    Sources.load (settings.withThresholds loose) disk root = Sources.load settings disk root :=
  rfl

theorem unused_withThresholds (files : List Syntax.SourceFile) :
    DesignToken.unused (settings.withThresholds loose) files = DesignToken.unused settings files :=
  rfl

theorem within_typedViolations (h : settings.thresholds.AtMost loose) (s : Sources) :
    Within (typedViolations (settings.withThresholds loose) tables disk root s)
      (typedViolations settings tables disk root s) := by
  unfold typedViolations
  split_ifs
  · exact .nil
  · exact Semantic.within_check h _

theorem within_found (h : settings.thresholds.AtMost loose) :
    Within (found (settings.withThresholds loose) tables disk root)
      (found settings tables disk root) := by
  rw [found, found, sources_withThresholds, unused_withThresholds, List.flatMap_map,
    List.flatMap_map]
  refine .append (.append (.append (.append (.refl _) ?_) ?_) (.refl _)) ?_
  · exact .flatMap fun file _ => FileAnalysis.within_violations h
  · exact within_typedViolations h _
  · exact Graph.within_check disk _ root _ h

theorem metrics_withThresholds :
    (analyze (settings.withThresholds loose) tables disk root).metrics =
      (analyze settings tables disk root).metrics := by
  simp only [analyze, Report.of, sources_withThresholds, List.map_map, Function.comp_def,
    FileAnalysis.of, UtilityClass.checkFile_withThresholds, DesignToken.check_withThresholds,
    Graph.check_withThresholds]

/-- Settings that differ from others in higher limits only never add a finding. All that a report
lists under the higher limits is listed under the lower ones as often, messages apart; the counters
are the same; and what is blocked under the higher limits is blocked under the lower ones. -/
theorem looser_thresholds_add_nothing (settings : Settings) (loose : Thresholds) (tables : Tables)
    (disk : Disk) (root : Path) (h : settings.thresholds.AtMost loose) :
    Within (analyze (settings.withThresholds loose) tables disk root).violations
        (analyze settings tables disk root).violations ∧
      (analyze (settings.withThresholds loose) tables disk root).metrics =
        (analyze settings tables disk root).metrics ∧
      ((analyze (settings.withThresholds loose) tables disk root).isBlocked = true →
        (analyze settings tables disk root).isBlocked = true) := by
  have hwithin : Within (analyze (settings.withThresholds loose) tables disk root).violations
      (analyze settings tables disk root).violations :=
    (within_found h).of_perm (perm_found ..) (perm_found ..)
  refine ⟨hwithin, metrics_withThresholds, fun hb => ?_⟩
  obtain ⟨v, hv, herror⟩ := (Report.isBlocked_iff _).1 hb
  obtain ⟨w, hw, hspot⟩ := hwithin.exists_of_mem hv
  have hseverity : w.severity = v.severity := congrArg (·.2.1) hspot
  exact (Report.isBlocked_iff _).2 ⟨w, hw, hseverity.trans herror⟩

/-- Two files that import each other, where no import is allowed and where chains of four are. -/
theorem looser_thresholds_add_nothing_pair :
    let strict := Settings.default.withThresholds { Thresholds.default with maxImportDepth := 0 }
    Within (analyze .default .default pair ⟨"/p"⟩).violations
        (analyze strict .default pair ⟨"/p"⟩).violations ∧
      (analyze .default .default pair ⟨"/p"⟩).metrics =
        (analyze strict .default pair ⟨"/p"⟩).metrics := by
  intro strict
  have hlimits : strict.thresholds.AtMost .default := by constructor <;> decide
  obtain ⟨hwithin, hmetrics, -⟩ :=
    looser_thresholds_add_nothing strict .default .default pair ⟨"/p"⟩ hlimits
  exact ⟨hwithin, hmetrics⟩

end Gate
end QualityGate
