import QualityGate.Report
import Mathlib.Data.List.Basic
import Mathlib.Order.Lattice.Nat

/-!
Counters of files rolled up for a project: some add up, and for the others the worst file counts. So
the order of the files does not matter. The summary of a report counts what the report lists.
-/
namespace QualityGate

namespace UtilityClass.Metrics

theorem merge_right_comm (m a b : Metrics) : (m.merge a).merge b = (m.merge b).merge a := by
  simp only [merge, Metrics.mk.injEq]
  exact ⟨max_right_comm .., max_right_comm .., max_right_comm .., Nat.add_right_comm ..,
    max_right_comm ..⟩

/-- The files may come in any order. -/
theorem foldl_merge_of_perm {ms ns : List Metrics} (h : ns.Perm ms) (m : Metrics) :
    ns.foldl merge m = ms.foldl merge m :=
  h.foldl_eq' (fun a _ b _ m => merge_right_comm m a b) m

end UtilityClass.Metrics

namespace DesignToken.Metrics

theorem merge_right_comm (m a b : Metrics) : (m.merge a).merge b = (m.merge b).merge a := by
  simp only [merge, Metrics.mk.injEq]
  exact ⟨Nat.add_right_comm .., Nat.add_right_comm ..⟩

/-- The files may come in any order. -/
theorem foldl_merge_of_perm {ms ns : List Metrics} (h : ns.Perm ms) (m : Metrics) :
    ns.foldl merge m = ms.foldl merge m :=
  h.foldl_eq' (fun a _ b _ m => merge_right_comm m a b) m

end DesignToken.Metrics

namespace Report

variable (r : Report)

/-- One error is enough to block. -/
theorem isBlocked_iff : r.isBlocked = true ↔ ∃ v ∈ r.violations, v.severity = .error := by
  simp only [isBlocked, summary, Summary.of, gt_iff_lt, decide_eq_true_eq, List.length_pos_iff,
    ne_eq, List.filter_eq_nil_iff, Violation.isError, not_forall, not_not, exists_prop]

theorem summary_warnings : r.summary.warnings = r.warnings.length := by
  have htotal := List.length_eq_length_filter_add (l := r.violations) Violation.isError
  simp only [summary, Summary.of, warnings]
  omega

end Report
end QualityGate
