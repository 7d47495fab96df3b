import QualityGate.Proofs.Gate.CircularImports
import QualityGate.Proofs.Report.Human
import QualityGate.Proofs.Report.Renderings

/-!
What a run of the program leaves behind. The exit code is decided before the report is rendered, and
what is printed is the rendering with one end of line.
-/
namespace QualityGate

namespace Command

variable {text : String}

theorem dropLineEnds_eq_self (h : text.toList.getLast? ≠ some '\n') : dropLineEnds text = text := by
  have hkept : text.toList.reverse.dropWhile (· = '\n') = text.toList.reverse := by
    rw [← List.head?_reverse] at h
    cases hl : text.toList.reverse with
    | nil => rfl
    | cons c cs =>
      rw [hl, List.head?_cons, ne_eq, Option.some.injEq] at h
      rw [List.dropWhile_cons_of_neg (by simpa using h)]
  rw [dropLineEnds, hkept, List.reverse_reverse, String.ofList_toList]

theorem dropLineEnds_line (h : text.toList.getLast? ≠ some '\n') :
    dropLineEnds (text ++ "\n") = text := by
  have hline : (text ++ "\n").toList.reverse = '\n' :: text.toList.reverse := by simp
  rw [dropLineEnds, hline, List.dropWhile_cons_of_pos rfl]
  exact dropLineEnds_eq_self h

end Command

theorem Json.getLast?_render_record (entries : List (String × Json)) :
    (Json.record entries).render.toList.getLast? = some '}' := by
  rw [render, String.toList_ofList, record]
  cases entries with
  | nil => rfl
  | cons e es => rw [List.map_cons, write, List.getLast?_concat]

theorem getLast?_append_text (s : String) {t : String} {c : Char} (h : t.toList.getLast? = some c) :
    (s ++ t).toList.getLast? = some c := by
  rw [String.toList_append, List.getLast?_append, h]
  rfl

/-- A style changes the last character of a text at most into the end of a color code. -/
theorem Style.getLast?_paint (colors : Bool) (s : Style) {text : String} {c : Char}
    (h : text.toList.getLast? = some c) :
    (s.paint colors text).toList.getLast? = some (if colors then 'm' else c) := by
  rw [paint]
  split_ifs
  · exact getLast?_append_text _ rfl
  · exact h

namespace Command

def printed (colors : Bool) (format : OutputFormat) (filter : SeverityFilter) (timestamp : String)
    (r : Report) : String :=
  dropLineEnds (render colors format filter timestamp r) ++ "\n"

variable (colors : Bool) (filter : SeverityFilter) (timestamp : String) (r : Report)

theorem printed_json :
    printed colors .json filter timestamp r = r.renderJson timestamp ++ "\n" := by
  have hlast : (r.renderJson timestamp).toList.getLast? = some '}' := Json.getLast?_render_record _
  rw [printed, render, dropLineEnds_eq_self (by simp [hlast])]

theorem printed_sarif : printed colors .sarif filter timestamp r = r.renderSarif ++ "\n" := by
  have hlast : r.renderSarif.toList.getLast? = some '}' := Json.getLast?_render_record _
  rw [printed, render, dropLineEnds_eq_self (by simp [hlast])]

/-- The decision is one line. -/
theorem exists_decision : ∃ core, Report.decision colors r = core ++ "\n" ∧
    core.toList.getLast? = some (if colors then 'm' else ')') := by
  have herrors : " errors)".toList.getLast? = some ')' := rfl
  have hwarnings : " warnings)".toList.getLast? = some ')' := rfl
  refine ⟨_, Report.decision_eq colors r, ?_⟩
  by_cases hcode : exitCode r = 1
  · rw [if_pos hcode]
    exact Style.getLast?_paint colors _ (getLast?_append_text _ herrors)
  · rw [if_neg hcode]
    exact Style.getLast?_paint colors _ (getLast?_append_text _ hwarnings)

theorem printed_human :
    printed colors .human filter timestamp r = r.renderHuman colors filter := by
  obtain ⟨core, hdecision, hlast⟩ := exists_decision colors r
  have htext : r.renderHuman colors filter = r.head colors ++ r.errorList colors
      ++ (if filter.shows .warning then r.warningList colors else "") ++ core ++ "\n" := by
    rw [Report.renderHuman, hdecision, ← String.append_assoc]
  have hend : (r.head colors ++ r.errorList colors
      ++ (if filter.shows .warning then r.warningList colors else "") ++ core).toList.getLast? ≠
        some '\n' := by
    rw [getLast?_append_text _ hlast]
    cases colors <;> decide
  rw [printed, render, htext, dropLineEnds_line hend]

theorem read?_printed {v : Json} (h : v.Reads) : Json.read? (v.render ++ "\n").toList = some v := by
  rw [String.toList_append, Json.render, String.toList_ofList]
  exact Json.read?_write h (by simp [Json.Ends, Json.endsValue,
    Json.isSpace]) (List.forall_mem_singleton.2 rfl)

theorem listed :
    Report.ListedInJson (printed colors .json filter timestamp r) r ∧
      Report.ListedInSarif (printed colors .sarif filter timestamp r) r ∧
      Report.ListedForReaders colors filter (printed colors .human filter timestamp r) r := by
  refine ⟨?_, ?_, ?_⟩
  · rw [printed_json]
    exact r.listedInJson (read?_printed (r.reads_toJson timestamp))
  · rw [printed_sarif]
    exact r.listedInSarif (read?_printed (Report.Sarif.reads_log r))
  · rw [printed_human]
    exact r.listedForReaders colors filter

variable (disk : Disk) (dir : Path) (format : OutputFormat)

def verdict : ℕ :=
  if disk.isFolder dir then
    match Gate.run disk dir with
    | .ok report => exitCode report
    | .error _ => 2
  else 2

theorem code_runGate :
    (runGate disk colors timestamp dir format filter).code = verdict disk dir := by
  unfold runGate verdict
  cases disk.isFolder dir with
  | false => rfl
  | true => cases Gate.run disk dir <;> rfl

theorem execute_of_parse {args : List String} {verbose json : Bool} {dir : String}
    (h : parse args = .ok ⟨verbose, .run dir json format filter⟩) :
    execute disk colors timestamp args =
      runGate disk colors timestamp ⟨dir⟩ (if json then .json else format) filter := by
  rw [execute, h]

variable {disk dir}

/-- Without a folder or its settings nothing is printed. -/
theorem runGate_unusable
    (h : disk.isFolder dir = false ∨ ∃ cause, Settings.load disk dir = .error cause) :
    (runGate disk colors timestamp dir format filter).code = 2 ∧
      (runGate disk colors timestamp dir format filter).output = "" := by
  unfold runGate
  cases hdir : disk.isFolder dir with
  | false => exact ⟨rfl, rfl⟩
  | true =>
    obtain ⟨cause, hcause⟩ := h.resolve_left (by simp [hdir])
    have hrun : Gate.run disk dir = .error (.settings cause) := by rw [Gate.run, hcause]
    simp only [hrun]
    exact ⟨rfl, rfl⟩

theorem runGate_of_run (hdir : disk.isFolder dir = true) {report : Report}
    (h : Gate.run disk dir = .ok report) : runGate disk colors timestamp dir format filter =
      ⟨exitCode report, printed colors format filter timestamp report, none⟩ := by
  simp only [runGate, hdir, h]
  rfl

theorem exitCode_eq_zero_iff (r : Report) :
    exitCode r = 0 ↔ ¬ ∃ v ∈ r.violations, v.severity = .error := by
  rw [← r.isBlocked_iff, ← r.exitCode_eq_one_iff, exitCode]
  split_ifs <;> simp

/-- What is decided, and which findings are shown, does not depend on how they are shown. Two runs
on one folder have the same exit code, whatever their formats and filters are. It is 2, and nothing
is printed, without the folder or its settings; else a report is printed, and it is 1 if an error is
in the report and 0 if none is. In every format the printed text lists what is in the report. -/
theorem outcome_independent_of_rendering :
    (∀ (disk : Disk) (dir : String) (colors colors' : Bool) (timestamp timestamp' : String)
        (args args' : List String) (verbose verbose' json json' : Bool)
        (format format' : OutputFormat) (filter filter' : SeverityFilter),
        parse args = .ok ⟨verbose, .run dir json format filter⟩ →
        parse args' = .ok ⟨verbose', .run dir json' format' filter'⟩ →
          (execute disk colors timestamp args).code =
            (execute disk colors' timestamp' args').code) ∧
      (∀ (disk : Disk) (dir : Path) (colors : Bool) (timestamp : String) (format : OutputFormat)
        (filter : SeverityFilter),
        disk.isFolder dir = false ∨ (∃ cause, Settings.load disk dir = .error cause) →
          (runGate disk colors timestamp dir format filter).code = 2 ∧
            (runGate disk colors timestamp dir format filter).output = "") ∧
      (∀ (disk : Disk) (dir : Path) (settings : Settings), disk.top.isTidy = true →
        disk.isFolder dir = true → Settings.load disk dir = .ok settings →
          ∃ report, Gate.run disk dir = .ok report ∧
            ∀ (colors : Bool) (timestamp : String) (format : OutputFormat)
              (filter : SeverityFilter),
              let outcome := runGate disk colors timestamp dir format filter
              outcome.output = printed colors format filter timestamp report ∧
                (outcome.code = 1 ↔ ∃ v ∈ report.violations, v.severity = .error) ∧
                (outcome.code = 0 ↔ ¬ ∃ v ∈ report.violations, v.severity = .error)) ∧
      ∀ (colors : Bool) (timestamp : String) (filter : SeverityFilter) (r : Report),
        Report.ListedInJson (printed colors .json filter timestamp r) r ∧
          Report.ListedInSarif (printed colors .sarif filter timestamp r) r ∧
          Report.ListedForReaders colors filter (printed colors .human filter timestamp r) r := by
  refine ⟨fun disk dir colors colors' timestamp timestamp' args args' verbose verbose' json json'
      format format' filter filter' h h' => ?_,
    fun disk dir colors timestamp format filter h => ?_,
    fun disk dir settings tidy hdir hs => ?_,
    fun colors timestamp filter r => listed colors filter timestamp r⟩
  · rw [execute_of_parse colors filter timestamp disk format h,
      execute_of_parse colors' filter' timestamp' disk format' h', code_runGate, code_runGate]
  · exact runGate_unusable colors filter timestamp format h
  · obtain ⟨report, hrun⟩ := Gate.exists_run tidy hdir hs
    refine ⟨report, hrun, fun colors timestamp format filter => ?_⟩
    intro outcome
    have houtcome : outcome = _ := runGate_of_run colors filter timestamp format hdir hrun
    rw [houtcome]
    exact ⟨rfl, report.exitCode_eq_one_iff.trans report.isBlocked_iff, exitCode_eq_zero_iff report⟩

/-- Two files that import each other, shown in two ways, and a folder that is not there. -/
theorem outcome_independent_of_rendering_pair :
    (execute Gate.pair false "" ["run", "/p"]).code =
        (execute Gate.pair true "" ["run", "/p", "--format", "sarif", "--severity=error"]).code ∧
      (runGate Gate.pair false "" ⟨"/q"⟩ .human .all).code = 2 ∧
      (runGate Gate.pair false "" ⟨"/p"⟩ .json .error).code = 1 := by
  obtain ⟨hcodes, hunusable, hreport, -⟩ := outcome_independent_of_rendering
  have hload : Settings.load Gate.pair ⟨"/p"⟩ = .ok .default := by rfl
  obtain ⟨report, hrun, houtcome⟩ := hreport Gate.pair ⟨"/p"⟩ _ (by decide) (by decide) hload
  refine ⟨?_, ?_, ?_⟩
  · exact hcodes Gate.pair "/p" _ _ _ _ _ _ false false false false .human .sarif .all .error
      (by rfl) (by rfl)
  · exact (hunusable _ _ _ _ _ _ (.inl (by decide))).1
  · obtain rfl := Except.ok.inj (Gate.run_pair.symm.trans hrun)
    have hcycle : _ ∈ (Gate.analyze .default .default Gate.pair ⟨"/p"⟩).violations :=
      Gate.mem_of_mem_cycles (Gate.cycles_pair ▸ List.mem_cons_self)
    exact (houtcome _ _ _ _).2.1.2 ⟨_, hcycle, rfl⟩

end Command
end QualityGate
