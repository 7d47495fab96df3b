import QualityGate.Proofs.Findings.Project
import QualityGate.Proofs.Gate.Sources
import QualityGate.Proofs.ProjectConfig.Nearest

/-!
The check for strict mode in a report. It names every configuration that some typed file answers to
and that is not strict, each of them once, and the project as a whole if some typed file answers to
no configuration.
-/
namespace QualityGate

open Syntax Violation

namespace ProjectConfig

def IsStrict (disk : Disk) (p : Path) : Prop :=
  ∃ config, load disk p = .ok config ∧ config.options.strict = some true

theorem path_loadOrNothing (disk : Disk) (p : Path) : (loadOrNothing disk p).path = p := by
  unfold loadOrNothing
  split
  · next config h =>
    rw [load] at h
    cases hoptions : loadOptions disk maxExtensions p with
    | error failure => simp [hoptions, Except.map] at h
    | ok options =>
      rw [hoptions] at h
      rw [← Except.ok.inj h]
  · rfl

theorem strictEnabled_loadOrNothing {disk : Disk} {p : Path} :
    (loadOrNothing disk p).options.strictEnabled = true ↔ IsStrict disk p := by
  unfold loadOrNothing IsStrict
  split
  · next config h => simp [h, CompilerOptions.strictEnabled]
  · next failure h => simp [h, CompilerOptions.strictEnabled, CompilerOptions.none]

end ProjectConfig

namespace Program

def laxBreach (p : Path) : Violation :=
  (Violation.error .strictModeCheck
    (p.fileName?.getD "" ++ " must have \"compilerOptions.strict\": true")).inFile p

def unconfiguredBreach : Violation :=
  .error .strictModeCheck "tsconfig.json not found in project hierarchy"

/-- The configurations that files answer to, in order. -/
def configPaths (disk : Disk) (root : Path) (files : List SourceFile) : List Path :=
  inOrder (files.filterMap fun f => nearest? disk root f.path)

variable {disk : Disk} {root : Path} {files : List SourceFile}

theorem strictness_eq (program : Program) : program.strictness =
    ((program.configs.filter fun c => !c.options.strictEnabled).map fun c => laxBreach c.path)
      ++ if program.hasUnconfigured then [unconfiguredBreach] else [] := rfl

theorem configs_build : (build disk root files).configs =
    (configPaths disk root files).map (ProjectConfig.loadOrNothing disk) := by
  simp only [build, configPaths, inOrder]

theorem strictness_build : (build disk root files).strictness =
    ((configPaths disk root files).filter fun p =>
        !(ProjectConfig.loadOrNothing disk p).options.strictEnabled).map laxBreach
      ++ if (files.any fun f => (nearest? disk root f.path).isNone) = true then [unconfiguredBreach]
        else [] := by
  have hnone : (build disk root files).hasUnconfigured =
      files.any fun f => (nearest? disk root f.path).isNone := by
    simp only [build, hasUnconfigured]
  rw [strictness_eq, configs_build, hnone, List.filter_map, List.map_map]
  simp only [Function.comp_def, ProjectConfig.path_loadOrNothing]

end Program

namespace ProjectConfig

/-- The configuration file that a source answers to, the nearest one from its own folder up. -/
def AnswersTo (disk : Disk) (root : List String) (source config : Path) : Prop :=
  ∃ names target, (∀ n ∈ names, Path.isName n = true) ∧ source = .ofNames names ∧
    config = .ofNames target ∧ Nearest disk root names.dropLast target

/-- No folder from that of a source up to the root holds a configuration file. -/
def Unconfigured (disk : Disk) (root : List String) (source : Path) : Prop :=
  ∃ names, (∀ n ∈ names, Path.isName n = true) ∧ source = .ofNames names ∧
    ∀ folder, OnWay root names.dropLast folder →
      ∀ name ∈ fileNames, ¬ disk.HoldsFile (folder ++ [name])

theorem AnswersTo.exists_names {disk : Disk} {root : List String} {source config : Path}
    (h : AnswersTo disk root source config) :
    ∃ folder, ∃ name ∈ fileNames, (∀ n ∈ folder ++ [name], Path.isName n = true) ∧
      config = .ofNames (folder ++ [name]) := by
  obtain ⟨names, target, hnames, -, rfl, folder, hway, hin, -⟩ := h
  obtain ⟨name, hname, rfl⟩ := hin.eq_concat
  have hfolder : ∀ n ∈ folder, Path.isName n = true := fun n hn =>
    hnames n ((List.dropLast_prefix names).subset (hway.above_start.subset hn))
  exact ⟨folder, name, hname, isName_concat hfolder hname, rfl⟩

/-- Two configuration files of equal components are one path. -/
theorem AnswersTo.eq_of_components {disk : Disk} {root : List String}
    {source config source' config' : Path} (h : AnswersTo disk root source config)
    (k : AnswersTo disk root source' config') (he : config.components = config'.components) :
    config = config' := by
  obtain ⟨folder, name, -, hnames, rfl⟩ := h.exists_names
  obtain ⟨folder', name', -, hnames', rfl⟩ := k.exists_names
  rw [(Path.same_ofNames_iff hnames hnames').1 (Path.same_iff.2 he)]

end ProjectConfig

namespace Gate

open ProjectConfig

variable {settings : Settings} {disk : Disk} {root : List String} {source config : Path}

theorem nearest?_of_mem_sources (tidy : disk.top.isTidy = true)
    (hroot : ∀ n ∈ root, Path.isName n = true)
    (h : source ∈ Discovery.sources settings disk (.ofNames root)) :
    ∃ names, (∀ n ∈ names, Path.isName n = true) ∧ source = .ofNames names ∧
      root <+: names.dropLast ∧ Program.nearest? disk (.ofNames root) source =
        ProjectConfig.nearest? disk (.ofNames root) (.ofNames names.dropLast) := by
  obtain ⟨more, hne, hnames, rfl⟩ := Discovery.exists_names_of_mem_sources tidy hroot h
  obtain ⟨front, name, rfl⟩ := (List.eq_nil_or_concat' more).resolve_left hne
  rw [← List.append_assoc] at hnames ⊢
  refine ⟨_, hnames, rfl, ?_, ?_⟩
  · rw [List.dropLast_concat]
    exact List.prefix_append _ _
  · rw [Program.nearest?, Path.parent?_ofNames hnames, List.dropLast_concat]
    rfl

theorem nearest?_eq_some_iff (tidy : disk.top.isTidy = true)
    (hroot : ∀ n ∈ root, Path.isName n = true)
    (h : source ∈ Discovery.sources settings disk (.ofNames root)) :
    Program.nearest? disk (.ofNames root) source = some config ↔
      AnswersTo disk root source config := by
  obtain ⟨names, hnames, rfl, hbelow, he⟩ := nearest?_of_mem_sources tidy hroot h
  have hfolder : ∀ n ∈ names.dropLast, Path.isName n = true := fun n hn =>
    hnames n ((List.dropLast_prefix names).subset hn)
  rw [he, ProjectConfig.nearest?_eq_some_iff hbelow hfolder]
  constructor
  · rintro ⟨target, htarget, rfl⟩
    exact ⟨names, target, hnames, rfl, rfl, htarget⟩
  · rintro ⟨names', target, hnames', hpath, rfl, htarget⟩
    obtain rfl := Path.ofNames_inj hnames hnames' hpath
    exact ⟨target, htarget, rfl⟩

theorem nearest?_eq_none_iff (tidy : disk.top.isTidy = true)
    (hroot : ∀ n ∈ root, Path.isName n = true)
    (h : source ∈ Discovery.sources settings disk (.ofNames root)) :
    Program.nearest? disk (.ofNames root) source = none ↔ Unconfigured disk root source := by
  obtain ⟨names, hnames, rfl, hbelow, he⟩ := nearest?_of_mem_sources tidy hroot h
  have hfolder : ∀ n ∈ names.dropLast, Path.isName n = true := fun n hn =>
    hnames n ((List.dropLast_prefix names).subset hn)
  have hholds (folder : List String) : (∀ config, ¬ InFolder disk folder config) ↔
      ∀ name ∈ fileNames, ¬ disk.HoldsFile (folder ++ [name]) := by
    have hiff := @exists_inFolder_iff disk folder
    rw [← not_exists, hiff]
    simp
  rw [he, ProjectConfig.nearest?_eq_none_iff hbelow hfolder]
  simp only [hholds]
  constructor
  · intro hall
    exact ⟨names, hnames, rfl, hall⟩
  · rintro ⟨names', hnames', hpath, hall⟩
    obtain rfl := Path.ofNames_inj hnames hnames' hpath
    exact hall

theorem perm_strictModeCheck (settings : Settings) (tables : Tables) (disk : Disk) (root : Path) :
    (ofRule .strictModeCheck (analyze settings tables disk root).violations).Perm
      (typedProgram settings disk root).strictness := by
  have h := perm_ofRule settings tables disk root .strictModeCheck
  rw [ofRule_found_of_semantic settings tables disk root rfl] at h
  unfold typedViolations at h
  split_ifs at h with he
  · rw [typedProgram, List.isEmpty_iff.1 he]
    exact h
  · rwa [Semantic.ofRule_strictModeCheck_check] at h

theorem mem_configPaths_iff (tidy : disk.top.isTidy = true)
    (hroot : ∀ n ∈ root, Path.isName n = true) {files : List SourceFile}
    (hfiles : ∀ file ∈ files, file.path ∈ Discovery.sources settings disk (.ofNames root)) :
    config ∈ Program.configPaths disk (.ofNames root) files ↔
      ∃ file ∈ files, AnswersTo disk root file.path config := by
  have hmem {p : Path} :
      (p ∈ files.filterMap fun f => Program.nearest? disk (.ofNames root) f.path) ↔
      ∃ file ∈ files, AnswersTo disk root file.path p := by
    rw [List.mem_filterMap]
    exact exists_congr fun file => and_congr_right fun hf =>
      nearest?_eq_some_iff tidy hroot (hfiles file hf)
  constructor
  · intro h
    exact hmem.1 (mem_of_mem_inOrder h)
  · rintro ⟨file, hf, hanswers⟩
    -- The list may hold the path in another spelling only, but each file has one.
    obtain ⟨q, hq, he⟩ :=
      mem_ids.1 (mem_ids_inOrder.2 (mem_ids_of_mem (hmem.2 ⟨file, hf, hanswers⟩)))
    obtain ⟨other, -, hother⟩ := hmem.1 (mem_of_mem_inOrder hq)
    rwa [← hother.eq_of_components hanswers he]

/-- The breaches of strict mode in a report are those of the configurations, each named once, that
are the nearest one of some typed file and are not strict, and one more of the project if some typed
file has no configuration up to the root; a project without typed files has none. -/
theorem strictModeCheck_of_nearest_configs {dir : Path} {report : Report}
    (tidy : disk.top.isTidy = true) (ran : run disk dir = .ok report) :
    ∃ settings root, Settings.load disk dir = .ok settings ∧
      disk.canonical? dir = some (.ofNames root) ∧ (∀ n ∈ root, Path.isName n = true) ∧
      ∃ configs unconfigured,
        (ofRule .strictModeCheck report.violations).Perm
          (configs.map Program.laxBreach ++ unconfigured) ∧
        (ids configs).Nodup ∧
        (∀ config, config ∈ configs ↔ ¬ IsStrict disk config ∧
          ∃ file ∈ (Sources.load settings disk (.ofNames root)).typed,
            AnswersTo disk root file.path config) ∧
        (unconfigured = [Program.unconfiguredBreach] ∧
            (∃ file ∈ (Sources.load settings disk (.ofNames root)).typed,
              Unconfigured disk root file.path) ∨
          unconfigured = [] ∧ ∀ file ∈ (Sources.load settings disk (.ofNames root)).typed,
            ¬ Unconfigured disk root file.path) ∧
        ((Sources.load settings disk (.ofNames root)).typed = [] →
          ofRule .strictModeCheck report.violations = []) := by
  obtain ⟨settings, root, hs, hcanonical, hroot, rfl⟩ := exists_names_of_run tidy ran
  have hperm := perm_strictModeCheck settings .default disk (.ofNames root)
  rw [typedProgram, Program.strictness_build] at hperm
  have hsources : ∀ file ∈ (Sources.load settings disk (.ofNames root)).typed,
      file.path ∈ Discovery.sources settings disk (.ofNames root) := fun file hf =>
    mem_sources_of_mem_files (mem_typed.1 hf).1
  refine ⟨settings, root, hs, hcanonical, hroot, _, _, hperm, ?_, ?_, ?_, ?_⟩
  · exact (nodup_ids_inOrder _).sublist (List.filter_sublist.map _)
  · intro config
    rw [List.mem_filter, mem_configPaths_iff tidy hroot hsources, ← strictEnabled_loadOrNothing,
      Bool.not_eq_true, Bool.not_eq_true', and_comm]
  · split_ifs with hany
    · obtain ⟨file, hf, hnone⟩ := List.any_eq_true.1 hany
      exact .inl ⟨rfl, file, hf, (nearest?_eq_none_iff tidy hroot (hsources file hf)).1
        (Option.isNone_iff_eq_none.1 hnone)⟩
    · refine .inr ⟨rfl, fun file hf hun => hany (List.any_eq_true.2 ⟨file, hf, ?_⟩)⟩
      exact Option.isNone_iff_eq_none.2 ((nearest?_eq_none_iff tidy hroot (hsources file hf)).2 hun)
  · intro hnil
    rw [hnil] at hperm
    exact List.perm_nil.1 hperm

def laxFolder : Disk where
  top := .folder [("p", .folder
    [("tsconfig.json", .file (some "\x7b\"compilerOptions\": \x7b\"strict\": true\x7d\x7d")),
     ("lib", .folder [("tsconfig.json", .file (some "\x7b\x7d")),
       ("a.ts", .file (some "let x = 1"))])])]
  here := []

theorem run_laxFolder : run laxFolder ⟨"/p"⟩ = .ok (analyze .default .default laxFolder ⟨"/p"⟩) :=
  run_eq (by rfl) (by decide) (by decide)

theorem typed_laxFolder :
    (Sources.load .default laxFolder ⟨"/p"⟩).typed.map (·.path) = [⟨"/p/lib/a.ts"⟩] := by
  have hsources : Discovery.sources .default laxFolder ⟨"/p"⟩ = [⟨"/p/lib/a.ts"⟩] := by
    have hentry : laxFolder.entry? ⟨"/p"⟩ = laxFolder.top.at? ["p"] := by rfl
    rw [Discovery.sources, hentry]
    exact List.mergeSort_of_pairwise (by decide +kernel)
  rw [Sources.load, hsources]
  decide +kernel

/-- The file in the folder answers to the configuration next to it. -/
theorem strictModeCheck_of_laxFolder : ∃ report, run laxFolder ⟨"/p"⟩ = .ok report ∧
    Program.laxBreach ⟨"/p/lib/tsconfig.json"⟩ ∈ report.violations := by
  obtain ⟨settings, root, hs, hcanonical, hroot, configs, unconfigured, hperm, -, hconfigs, -⟩ :=
    @strictModeCheck_of_nearest_configs laxFolder ⟨"/p"⟩ _ (by decide) run_laxFolder
  obtain rfl : Settings.default = settings := Except.ok.inj hs
  have hp : Path.ofNames ["p"] = .ofNames root := Option.some.inj hcanonical
  obtain rfl : ["p"] = root := Path.ofNames_inj (by decide) hroot hp
  have hlax : ¬ IsStrict laxFolder ⟨"/p/lib/tsconfig.json"⟩ := by
    rw [← strictEnabled_loadOrNothing]
    decide +kernel
  obtain ⟨file, hf, hpath⟩ :=
    List.mem_map.1 (typed_laxFolder ▸ List.mem_singleton_self (Path.mk "/p/lib/a.ts"))
  have hheld : laxFolder.HoldsFile ["p", "lib", "tsconfig.json"] :=
    (Disk.isFile_ofNames_iff (by decide) (by decide)).1 (by decide +kernel)
  have hnearest : Nearest laxFolder ["p"] ["p", "lib"] ["p", "lib", "tsconfig.json"] := by
    refine ⟨["p", "lib"], ⟨⟨["lib"], rfl⟩, List.prefix_rfl⟩, .tsconfig hheld, ?_⟩
    exact fun deeper hdeeper hlt => absurd hdeeper.above_start.length_le (Nat.not_le.2 hlt)
  have hanswers : AnswersTo laxFolder ["p"] file.path ⟨"/p/lib/tsconfig.json"⟩ :=
    ⟨["p", "lib", "a.ts"], _, by decide, hpath, rfl, hnearest⟩
  have hmem := (hconfigs _).2 ⟨hlax, file, hf, hanswers⟩
  have hlisted := hperm.mem_iff.2 (List.mem_append_left _ (List.mem_map_of_mem hmem))
  exact ⟨_, run_laxFolder, (List.mem_filter.1 hlisted).1⟩

end Gate
end QualityGate
