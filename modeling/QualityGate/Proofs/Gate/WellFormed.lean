import QualityGate.Proofs.Findings.Files
import QualityGate.Proofs.Gate.Schedule

/-!
The form of what a report lists. Every violation breaches a rule of the catalog with the severity
that the catalog has for the rule, and where it has a place, it names the file of the place as well.
-/
namespace QualityGate

open Syntax Violation

namespace Violation

structure WellFormed (v : Violation) : Prop where
  rule : ∃ r ∈ Rule.catalog, v.rule = r.id ∧ v.severity = r.severity
  /-- Without a place, or with a whole one. -/
  place : v.line = none ∧ v.column = none ∨ ∃ line column file,
    v.line = some line ∧ v.column = some column ∧ v.file = some file ∧ 1 ≤ line ∧ 1 ≤ column

theorem Found.wellFormed {v : Violation} {rules : Rule → Prop} {files : Path → Prop}
    (h : v.Found rules) (hfile : v.Filed files) : v.WellFormed where
  rule := h.rule.imp fun r hr => ⟨Rule.mem_catalog r, hr.2⟩
  place := h.place.imp_right fun ⟨l, ⟨hline, hcolumn⟩, hl, hc⟩ => by
    obtain ⟨file, hf⟩ :=
      Option.isSome_iff_exists.1 (hfile.file_isSome (Option.isSome_of_eq_some hl))
    exact ⟨_, _, file, hl, hc, hf, hline, hcolumn⟩

/-- The rule settles the severity. -/
theorem WellFormed.severity_eq {v w : Violation} (hv : v.WellFormed) (hw : w.WellFormed)
    (h : w.rule = v.rule) : w.severity = v.severity := by
  obtain ⟨r, -, hr, hs⟩ := hv.rule
  obtain ⟨r', -, hr', hs'⟩ := hw.rule
  rw [hs, hs', Rule.id_injective (hr'.symm.trans (h.trans hr))]

end Violation

namespace Gate

theorem wellFormed_of_mem {settings : Settings} {tables : Tables} {disk : Disk} {root : Path}
    {v : Violation} (h : v ∈ (analyze settings tables disk root).violations) : v.WellFormed := by
  have hv := (perm_found settings tables disk root).mem_iff.1 h
  have hfound := findings_found settings tables disk root v hv
  rcases filed_found settings tables disk root v hv with ⟨-, hfile⟩ | ⟨-, hfile⟩ | hfile
  all_goals exact hfound.wellFormed hfile

/-- Every violation in a report is well formed, and has the severity that violations of its rule
have in all other reports. -/
theorem violations_wellFormed {disk : Disk} {dir : Path} {report : Report}
    (ran : run disk dir = .ok report) :
    ∀ v ∈ report.violations, v.WellFormed ∧
      ∀ (other : Disk) (place : Path) (second : Report), run other place = .ok second →
        ∀ w ∈ second.violations, w.rule = v.rule → w.severity = v.severity := by
  obtain ⟨settings, root, -, -, -, rfl⟩ := exists_of_run ran
  refine fun v hv => ⟨wellFormed_of_mem hv, fun other place second ran' w hw h => ?_⟩
  obtain ⟨settings', root', -, -, -, rfl⟩ := exists_of_run ran'
  exact (wellFormed_of_mem hv).severity_eq (wellFormed_of_mem hw) h

def anyType : Disk where
  top := .folder [("p", .folder [("a.ts", .file (some "let x: any"))])]
  here := []

theorem run_anyType : run anyType ⟨"/p"⟩ = .ok (analyze .default .default anyType ⟨"/p"⟩) :=
  run_eq (by rfl) (by decide) (by decide)

theorem sources_anyType : Discovery.sources .default anyType ⟨"/p"⟩ = [⟨"/p/a.ts"⟩] := by
  have hentry : anyType.entry? ⟨"/p"⟩ = some (.folder [("a.ts", .file (some "let x: any"))]) := by
    rfl
  rw [Discovery.sources, hentry]
  exact List.mergeSort_of_pairwise (by decide +kernel)

/-- The name of the type stands at the eighth column. -/
theorem violations_wellFormed_anyType :
    let v := ((Rule.noAnyType.breach "Usage of \"any\" type is not allowed").located ⟨1, 8⟩).inFile
      ⟨"/p/a.ts"⟩
    ∃ report, run anyType ⟨"/p"⟩ = .ok report ∧ v ∈ report.violations ∧ v.WellFormed := by
  intro v
  have hfound : v ∈ found .default .default anyType ⟨"/p"⟩ := by
    rw [found, Sources.load, sources_anyType]
    decide +kernel
  have hv := (perm_found .default .default anyType ⟨"/p"⟩).mem_iff.2 hfound
  exact ⟨_, run_anyType, hv, (violations_wellFormed run_anyType v hv).1⟩

end Gate
end QualityGate
