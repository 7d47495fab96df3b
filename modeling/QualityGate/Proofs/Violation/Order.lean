import QualityGate.Proofs.Violation
import Mathlib.Data.Prod.Lex
import Mathlib.Data.String.Basic

/-!
The order of a report. It compares keys, and a key leaves out the severity and takes an absent line
or column for 0; but where rules have one severity and places count from one on, a key tells its
violation. So what a report lists does not depend on the order in which it was found.
-/
namespace QualityGate.Violation

/-- What a report is sorted by: first what concerns a file, then file, line, column, rule and
message. -/
abbrev Key := Bool ×ₗ String ×ₗ ℕ ×ₗ ℕ ×ₗ String ×ₗ String

def key (v : Violation) : Key :=
  toLex (v.file.isNone, toLex (v.file.getD "", toLex (v.line.getD 0, toLex (v.column.getD 0,
    toLex (v.rule, v.message)))))

theorem compare_eq (v w : Violation) : compare v w = Ord.compare v.key w.key := rfl

theorem le_iff {v w : Violation} : le v w = true ↔ v.key ≤ w.key := by
  rw [le, compare_eq]
  exact Ordering.isLE_iff_ne_gt.trans compare_le_iff_le

/-- A report is ordered by keys. -/
theorem pairwise_sort (vs : List Violation) : (sort vs).Pairwise fun v w => v.key ≤ w.key := by
  have trans (u v w : Violation) (huv : le u v = true) (hvw : le v w = true) : le u w = true :=
    le_iff.2 ((le_iff.1 huv).trans (le_iff.1 hvw))
  have total (v w : Violation) : (le v w || le w v) = true := by
    rw [Bool.or_eq_true, le_iff, le_iff]
    exact le_total v.key w.key
  exact (List.pairwise_mergeSort trans total vs).imp le_iff.1

/-- Violations of one rule have one severity, and lines and columns count from one on. -/
structure Sortable (vs : List Violation) : Prop where
  severity : ∀ v ∈ vs, ∀ w ∈ vs, v.rule = w.rule → v.severity = w.severity
  counted : ∀ v ∈ vs, v.line ≠ some 0 ∧ v.column ≠ some 0

/-- An absent number passes for 0, which is no number of a line or a column. -/
theorem eq_of_getD_eq {m n : Option ℕ} (hm : m ≠ some 0) (hn : n ≠ some 0)
    (h : m.getD 0 = n.getD 0) : m = n := by
  cases m <;> cases n <;> simp_all

theorem file_eq_of_key_eq {v w : Violation} (hnone : v.file.isNone = w.file.isNone)
    (htext : v.file.getD "" = w.file.getD "") : v.file = w.file := by
  cases hv : v.file <;> cases hw : w.file <;> simp_all

theorem Sortable.eq_of_key_eq {vs : List Violation} (h : Sortable vs) {v w : Violation}
    (hv : v ∈ vs) (hw : w ∈ vs) (hkey : v.key = w.key) : v = w := by
  simp only [key, toLex_inj, Prod.mk.injEq] at hkey
  obtain ⟨hnone, htext, hline, hcolumn, hrule, hmessage⟩ := hkey
  have hfile := file_eq_of_key_eq hnone htext
  have hline := eq_of_getD_eq (h.counted v hv).1 (h.counted w hw).1 hline
  have hcolumn := eq_of_getD_eq (h.counted v hv).2 (h.counted w hw).2 hcolumn
  have hseverity := h.severity v hv w hw hrule
  cases v
  cases w
  simp_all

/-- In whatever order violations are found, a report lists them in one order. -/
theorem sort_eq_of_perm {vs ws : List Violation} (h : Sortable vs) (hp : ws.Perm vs) :
    sort ws = sort vs := by
  have hperm : (sort ws).Perm (sort vs) := ((perm_sort ws).trans hp).trans (perm_sort vs).symm
  refine hperm.eq_of_pairwise (fun v w hv hw hvw hwv => ?_) (pairwise_sort ws) (pairwise_sort vs)
  have hv' : v ∈ vs := hp.mem_iff.1 ((perm_sort ws).mem_iff.1 hv)
  have hw' : w ∈ vs := (perm_sort vs).mem_iff.1 hw
  exact h.eq_of_key_eq hv' hw' (le_antisymm hvw hwv)

theorem Found.counted {rules : Rule → Prop} {v : Violation} (h : v.Found rules) :
    v.line ≠ some 0 ∧ v.column ≠ some 0 := by
  rcases h.place with ⟨hl, hc⟩ | ⟨l, ⟨hline, hcolumn⟩, hl, hc⟩
  · simp [hl, hc]
  · rw [hl, hc]
    simp only [ne_eq, Option.some.injEq]
    omega

/-- What checks find can be sorted in one way only. -/
theorem Findings.sortable {rules : Rule → Prop} {vs : List Violation} (h : Findings rules vs) :
    Sortable vs where
  severity v hv w hw hrule := by
    obtain ⟨r, -, hr, hvr⟩ := (h v hv).rule
    obtain ⟨s, -, hs, hws⟩ := (h w hw).rule
    obtain rfl : r = s := Rule.id_injective (hr.symm.trans (hrule.trans hs))
    exact hvr.trans hws.symm
  counted v hv := (h v hv).counted

end QualityGate.Violation
