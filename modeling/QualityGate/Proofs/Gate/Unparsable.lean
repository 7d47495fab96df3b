import QualityGate.Proofs.Findings.Files
import QualityGate.Proofs.Gate.CircularImports
import QualityGate.Proofs.Gate.StrictMode

/-!
Sources that cannot be read or parsed. Each of them is reported once. No other check is given them,
so that besides that breach only the check on much imported modules can name them.
-/
namespace QualityGate.Gate

open Syntax Violation

variable {settings : Settings} {tables : Tables} {disk : Disk} {root p : Path} {v : Violation}

theorem load_of_mem_files {file : SourceFile} (h : file ∈ (Sources.load settings disk root).files) :
    SourceFile.load disk file.path = .ok file := by
  simp only [Sources.load, List.filterMap_map, List.mem_filterMap, Function.comp_apply] at h
  obtain ⟨q, -, hq⟩ := h
  cases hload : SourceFile.load disk q with
  | error failure => simp [hload, Except.toOption] at hq
  | ok other =>
    obtain rfl : other = file := by simpa [hload, Except.toOption] using hq
    rw [SourceFile.path_of_load hload, hload]

theorem failure?_of_ok {file : SourceFile} (h : SourceFile.load disk p = .ok file) :
    failure? disk p = none := by
  rw [failure?, h]

theorem failure?_of_error {failure : ParseFailure} (h : SourceFile.load disk p = .error failure) :
    failure? disk p = some (failure.breach p) := by
  rw [failure?, h]

theorem ofRule_parseError_found : ofRule .parseError (found settings tables disk root) =
    (Sources.load settings disk root).broken := by
  have hcomponents := ofRule_eq_nil (r := .parseError)
    (findings_components settings tables (Sources.load settings disk root).components) (by decide)
  have htyped := ofRule_eq_nil (r := .parseError)
    (findings_typedViolations settings tables disk root (Sources.load settings disk root))
      (by decide)
  have hunused := ofRule_eq_nil (r := .parseError)
    (DesignToken.findings_unused settings (Sources.load settings disk root).files) (by decide)
  have himports := ofRule_eq_nil (r := .parseError)
    (Graph.findings_check disk settings (Program.resolver disk root) root
      (Sources.load settings disk root).files) (by decide)
  simp only [found, ofRule_append, hcomponents, htyped, hunused, himports, List.append_nil]
  exact ofRule_eq_self (findings_broken settings disk root)

theorem filter_concerns_failures (ps : List Path) (p : Path) :
    (ps.filterMap (failure? disk)).filter (·.concerns p) =
      (ps.filter (·.same p)).filterMap (failure? disk) := by
  rw [List.filter_filterMap, List.filterMap_filter]
  congr 1
  funext q
  cases hq : failure? disk q with
  | none => simp
  | some v => simp [Option.filter, concerns, file_of_failure? hq]

/-- A source is reported once if it cannot be parsed, and else not at all. -/
theorem parseErrors_of_source (tidy : disk.top.isTidy = true) (hr : root.isAbsolute = true)
    (hp : p ∈ Discovery.sources settings disk root) :
    (ofRule .parseError (analyze settings tables disk root).violations).filter (·.concerns p) =
      (failure? disk p).toList := by
  have hperm := (perm_ofRule settings tables disk root .parseError).filter (·.concerns p)
  have hone : (Discovery.sources settings disk root).filter (·.same p) = [p] :=
    filter_same_eq_singleton (f := id) (by simpa using Discovery.nodup_ids_sources tidy hr) hp rfl
  rw [ofRule_parseError_found, broken_eq, filter_concerns_failures, hone] at hperm
  cases hfailure : failure? disk p with
  | none => simpa [hfailure] using hperm
  | some v => simpa [hfailure] using hperm

theorem not_isSource_of_answersTo {root : List String} {source config : Path}
    (h : ProjectConfig.AnswersTo disk root source config) (hp : config.components = p.components) :
    Discovery.isSource p = false := by
  obtain ⟨folder, name, hname, hnames, rfl⟩ := h.exists_names
  have hfile : p.fileName? = some name := by
    rw [← Path.fileName?_ofNames hnames, Path.fileName?, Path.fileName?, hp]
  have hlanguage : Language.ofPath? p = none := by
    rw [Language.ofPath?, Path.extension?, hfile]
    rcases List.mem_cons.1 hname with rfl | hname
    · decide
    · obtain rfl := List.mem_singleton.1 hname
      decide
  simp [Discovery.isSource, hlanguage]

/-- A source that cannot be parsed is no file that a check has read, in no spelling. -/
theorem IsRead.ne_unparsable (tidy : disk.top.isTidy = true) {root : List String}
    (hroot : ∀ n ∈ root, Path.isName n = true) {q : Path}
    (h : IsRead settings disk (.ofNames root) q)
    (hp : p ∈ Discovery.sources settings disk (.ofNames root)) {failure : ParseFailure}
    (hfailure : SourceFile.load disk p = .error failure) : q.components ≠ p.components := by
  intro he
  rcases h with ⟨file, hf, rfl⟩ | ⟨c, hc, rfl⟩
  · have hsources : (ids (Discovery.sources settings disk (.ofNames root))).Nodup :=
      Discovery.nodup_ids_sources tidy (Path.isAbsolute_ofNames root)
    obtain rfl := List.inj_on_of_nodup_map hsources (mem_sources_of_mem_files hf) hp he
    rw [load_of_mem_files hf] at hfailure
    cases hfailure
  · rw [typedProgram, Program.configs_build] at hc
    obtain ⟨q, hq, rfl⟩ := List.mem_map.1 hc
    obtain ⟨file, -, hanswers⟩ := (mem_configPaths_iff tidy hroot fun file hf =>
      mem_sources_of_mem_files (mem_typed.1 hf).1).1 hq
    rw [ProjectConfig.path_loadOrNothing] at he
    have hsource : Discovery.isSource p = true := (Discovery.mem_sources hp).1
    simp [not_isSource_of_answersTo hanswers he] at hsource

/-- No check is given a file: it is none of the parsed files, and neither import graph has it as a
file that imports others. -/
structure Unread (settings : Settings) (disk : Disk) (root p : Path) : Prop where
  files : ∀ file ∈ (Sources.load settings disk root).files, file.path.same p = false
  components : ∀ file ∈ (Sources.load settings disk root).components, file.path.same p = false
  typed : ∀ file ∈ (Sources.load settings disk root).typed, file.path.same p = false
  importGraph : ∀ q ∈ (importGraph settings disk root).files, q.same p = false
  typedGraph : ∀ q ∈ (typedProgram settings disk root).graph.files, q.same p = false

theorem unread_of_ne (h : ∀ q, IsRead settings disk root q → q.components ≠ p.components) :
    Unread settings disk root p := by
  have hfiles : ∀ file ∈ (Sources.load settings disk root).files, file.path.same p = false :=
    fun file hf =>
    Bool.eq_false_iff.2 fun hs => h _ (.inl ⟨file, hf, rfl⟩) (Path.same_iff.1 hs)
  refine ⟨hfiles, ?_, ?_, ?_, ?_⟩
  · exact fun file hf => hfiles file (List.mem_of_mem_filter hf)
  · exact fun file hf => hfiles file (List.mem_of_mem_filter hf)
  · intro q hq
    obtain ⟨file, hf, rfl⟩ := Graph.mem_files_ofFiles hq
    exact hfiles file hf
  · intro q hq
    obtain ⟨file, hf, rfl⟩ := Graph.mem_files_ofFiles hq
    exact hfiles file (List.mem_of_mem_filter hf)

theorem rule_of_concerns (h : ∀ q, IsRead settings disk root q → q.components ≠ p.components)
    (hv : v ∈ (analyze settings tables disk root).violations) (hp : v.concerns p = true) :
    v.rule = Rule.parseError.id ∨ v.rule = Rule.duplicateImport.id := by
  rcases filed_found settings tables disk root v
    ((perm_found settings tables disk root).mem_iff.1 hv) with ⟨hr, -⟩ | ⟨hr, -⟩ | hfiled
  · exact .inl hr
  · exact .inr hr
  · rcases hfiled with ⟨hnone, -⟩ | ⟨q, hq, hfile⟩
    · simp [concerns, hnone] at hp
    · rw [concerns, hfile] at hp
      exact absurd (Path.same_iff.1 hp) (h q hq)

/-- A folder whose settings can be loaded is reported on, whatever its sources hold. A source that
can be parsed is never reported as one that cannot; one that cannot be parsed is reported once, and
no check is given it, so that all else that names it is the check on much imported modules. -/
theorem unparsable_isolated {dir : Path} (tidy : disk.top.isTidy = true)
    (hdir : disk.isFolder dir = true) (hs : Settings.load disk dir = .ok settings) :
    ∃ root report, disk.canonical? dir = some root ∧ run disk dir = .ok report ∧
      report.violations.Perm (found settings .default disk root) ∧
      ∀ p ∈ Discovery.sources settings disk root,
        (∀ file, SourceFile.load disk p = .ok file →
          (ofRule .parseError report.violations).filter (·.concerns p) = []) ∧
        ∀ failure, SourceFile.load disk p = .error failure →
          (ofRule .parseError report.violations).filter (·.concerns p) = [failure.breach p] ∧
          (∀ v ∈ report.violations, v.concerns p = true →
            v.rule = Rule.parseError.id ∨ v.rule = Rule.duplicateImport.id) ∧
          Unread settings disk root p := by
  obtain ⟨report, ran⟩ := exists_run tidy hdir hs
  obtain ⟨settings', root, hs', hcanonical, hroot, rfl⟩ := exists_names_of_run tidy ran
  obtain rfl : settings = settings' := Except.ok.inj (hs.symm.trans hs')
  have hroot' : (Path.ofNames root).isAbsolute = true := Path.isAbsolute_ofNames root
  refine ⟨_, _, hcanonical, ran, perm_found settings .default disk _,
    fun p hp => ⟨fun file hfile => ?_, fun failure hfailure => ?_⟩⟩
  · rw [parseErrors_of_source tidy hroot' hp, failure?_of_ok hfile, Option.toList]
  · have hne : ∀ q, IsRead settings disk (.ofNames root) q → q.components ≠ p.components :=
      fun q hq => hq.ne_unparsable tidy hroot hp hfailure
    refine ⟨?_, fun v hv hc => rule_of_concerns hne hv hc, unread_of_ne hne⟩
    rw [parseErrors_of_source tidy hroot' hp, failure?_of_error hfailure, Option.toList]

def halfBroken : Disk where
  top := .folder [("p", .folder
    [("a.ts", .file (some "import './b'")), ("b.ts", .file (some "let = ("))])]
  here := []

theorem sources_halfBroken :
    Discovery.sources .default halfBroken ⟨"/p"⟩ = [⟨"/p/a.ts"⟩, ⟨"/p/b.ts"⟩] := by
  have hentry : halfBroken.entry? ⟨"/p"⟩ = some (.folder
    [("a.ts", .file (some "import './b'")), ("b.ts", .file (some "let = ("))]) := by rfl
  rw [Discovery.sources, hentry]
  exact List.mergeSort_of_pairwise (by decide +kernel)

theorem unparsable_isolated_halfBroken : ∃ report failure, run halfBroken ⟨"/p"⟩ = .ok report ∧
    SourceFile.load halfBroken ⟨"/p/b.ts"⟩ = .error failure ∧
    (ofRule .parseError report.violations).filter (·.concerns ⟨"/p/b.ts"⟩) =
      [failure.breach ⟨"/p/b.ts"⟩] := by
  obtain ⟨root, report, hcanonical, ran, -, hall⟩ :=
    @unparsable_isolated .default halfBroken ⟨"/p"⟩ (by decide) (by decide) (by rfl)
  obtain rfl : (⟨"/p"⟩ : Path) = root := Option.some.inj hcanonical
  rw [sources_halfBroken] at hall
  have hfails : (failure? halfBroken ⟨"/p/b.ts"⟩).isSome = true := by decide +kernel
  cases hload : SourceFile.load halfBroken ⟨"/p/b.ts"⟩ with
  | ok file => simp [failure?_of_ok hload] at hfails
  | error failure => exact ⟨report, failure, ran, rfl, ((hall _ (by simp)).2 failure hload).1⟩

end QualityGate.Gate
