import QualityGate.Gate
import QualityGate.Proofs.Discovery

/-!
The sources of a run: every parsed file is a discovered source, and none is there twice. A folder
whose settings can be loaded is reported on.
-/
namespace QualityGate

open Syntax

namespace Syntax.SourceFile

theorem path_of_parse {path : Path} {source : String} {file : SourceFile}
    (h : parse path source = .ok file) :
    file.path = path := by
  unfold parse at h
  split at h
  · simp at h
  · simp only at h
    split at h
    · simp at h
    · obtain rfl := Except.ok.inj h
      rfl

theorem path_of_load {disk : Disk} {path : Path} {file : SourceFile}
    (h : load disk path = .ok file) :
    file.path = path := by
  unfold load at h
  split at h
  · simp at h
  · exact path_of_parse h

end Syntax.SourceFile

namespace Gate

variable {settings : Settings} {disk : Disk} {root : Path}

/-- The files that can be parsed are those discovered, some left out. -/
theorem sublist_files :
    ((Sources.load settings disk root).files.map (·.path)).Sublist
      (Discovery.sources settings disk root) := by
  simp only [Sources.load, List.filterMap_map, Function.comp_def]
  induction Discovery.sources settings disk root with
  | nil => exact .slnil
  | cons p ps ih =>
    cases h : SourceFile.load disk p with
    | error failure => simpa [h, Except.toOption] using ih.cons p
    | ok file => simpa [h, Except.toOption, SourceFile.path_of_load h] using ih.cons_cons p

theorem mem_sources_of_mem_files {file : SourceFile}
    (h : file ∈ (Sources.load settings disk root).files) :
    file.path ∈ Discovery.sources settings disk root :=
  sublist_files.subset (List.mem_map_of_mem h)

/-- No two typed files of a run are one file. -/
theorem nodup_ids_typed (tidy : disk.top.isTidy = true) (hr : root.isAbsolute = true) :
    (ids ((Sources.load settings disk root).typed.map (·.path))).Nodup := by
  have hfiles : (ids ((Sources.load settings disk root).files.map (·.path))).Nodup :=
    (Discovery.nodup_ids_sources tidy hr).sublist (sublist_files.map _)
  exact hfiles.sublist ((List.filter_sublist.map _).map _)

theorem mem_typed {file : SourceFile} : file ∈ (Sources.load settings disk root).typed ↔
    file ∈ (Sources.load settings disk root).files ∧ isTypedFile file.path = true :=
  List.mem_filter

/-- A run that succeeds reports on a folder by its own settings. -/
theorem exists_of_run {dir : Path} {report : Report} (h : run disk dir = .ok report) :
    ∃ settings root, Settings.load disk dir = .ok settings ∧ disk.canonical? dir = some root ∧
      root.isAbsolute = true ∧ report = analyze settings .default disk root := by
  unfold run at h
  split at h
  · simp at h
  · next settings hs =>
    split at h
    · simp at h
    · next root hroot =>
      split_ifs at h
      refine ⟨settings, root, hs, hroot, ?_, (Except.ok.inj h).symm⟩
      unfold Disk.canonical? at hroot
      split at hroot
      · obtain rfl := Option.some.inj hroot
        simp [Path.isAbsolute]
      · simp at hroot

/-- The project that a run reports on lies at the end of the names of its folder. -/
theorem exists_names_of_run (tidy : disk.top.isTidy = true) {dir : Path} {report : Report}
    (h : run disk dir = .ok report) :
    ∃ settings names, Settings.load disk dir = .ok settings ∧
      disk.canonical? dir = some (.ofNames names) ∧ (∀ n ∈ names, Path.isName n = true) ∧
      report = analyze settings .default disk (.ofNames names) := by
  obtain ⟨settings, root, hs, hroot, -, rfl⟩ := exists_of_run h
  unfold Disk.canonical? at hroot
  split at hroot
  · next names hnames =>
    obtain rfl : Path.ofNames names = root := Option.some.inj hroot
    obtain ⟨entry, hentry⟩ := Disk.exists_at?_of_locate hnames
    exact ⟨settings, names, hs, by rw [Disk.canonical?, hnames]; rfl,
      Entry.isName_of_at? tidy hentry, rfl⟩
  · simp at hroot

theorem run_eq {dir : Path} (hs : Settings.load disk dir = .ok settings)
    (hroot : disk.canonical? dir = some root) (hfolder : disk.isFolder root = true) :
    run disk dir = .ok (analyze settings .default disk root) := by
  simp only [run, hs, hroot, hfolder, if_true]

/-- A folder whose settings can be loaded is reported on. -/
theorem exists_run (tidy : disk.top.isTidy = true) {dir : Path} (hdir : disk.isFolder dir = true)
    (hs : Settings.load disk dir = .ok settings) : ∃ report, run disk dir = .ok report := by
  obtain ⟨root, hroot, hfolder⟩ := Disk.isFolder_canonical? tidy hdir
  exact ⟨_, run_eq hs hroot hfolder⟩

end Gate
end QualityGate
