import QualityGate.Discovery
import QualityGate.Proofs.Disk
import QualityGate.Proofs.Path.Order
import Mathlib.Data.List.Nodup

/-!
The search for source files. It lists every file of a tidy tree at most once, so that no two sources
are one file, and what is a source of the typed languages is a typed file.
-/
namespace QualityGate.Discovery

open Syntax

variable {ignoreDirs : List String}

mutual
/-- Names are only added behind those that lead to the entry, and lead to a file in it. -/
theorem exists_of_mem_files {above : List FolderRules} {path l : List String} {entry : Entry}
    (h : entry.isTidy = true) (hl : l ∈ files ignoreDirs above path entry) :
    ∃ names content, l = path ++ names ∧ entry.at? names = some (.file content) := by
  cases entry with
  | file content =>
    rw [files] at hl
    split_ifs at hl
    · simp at hl
    · exact ⟨[], content, by simpa using hl, rfl⟩
  | folder entries =>
    rw [files] at hl
    split_ifs at hl
    · simp at hl
    · obtain ⟨name, -, names, content, he, hat⟩ := exists_of_mem_filesIn h hl
      exact ⟨name :: names, content, he, hat⟩

theorem exists_of_mem_filesIn {above : List FolderRules} {path l : List String}
    {entries : List (String × Entry)} (h : Entry.areTidy entries = true)
    (hl : l ∈ filesIn ignoreDirs above path entries) :
    ∃ name ∈ entries.map (·.1), ∃ names content, l = path ++ name :: names ∧
      (Entry.folder entries).at? (name :: names) = some (.file content) := by
  cases entries with
  | nil => simp [filesIn] at hl
  | cons e rest =>
    obtain ⟨name, entry⟩ := e
    obtain ⟨-, hfresh, hentry, hrest⟩ := Entry.areTidy_cons.1 h
    rw [filesIn, List.mem_append] at hl
    rcases hl with hl | hl
    · obtain ⟨names, content, he, hat⟩ := exists_of_mem_files hentry hl
      refine ⟨name, by simp, names, content, by simpa using he, ?_⟩
      rwa [Entry.at?, Entry.child?_cons_self]
    · obtain ⟨other, ho, names, content, he, hat⟩ := exists_of_mem_filesIn hrest hl
      have hne : name ≠ other := fun heq => hfresh (heq ▸ ho)
      refine ⟨other, List.mem_cons_of_mem _ ho, names, content, he, ?_⟩
      rwa [Entry.at?, Entry.child?_cons_of_ne hne]
end

mutual
theorem nodup_files {above : List FolderRules} {path : List String} {entry : Entry}
    (h : entry.isTidy = true) : (files ignoreDirs above path entry).Nodup := by
  cases entry with
  | file content =>
    rw [files]
    split_ifs
    · exact .nil
    · exact List.nodup_singleton _
  | folder entries =>
    rw [files]
    split_ifs
    · exact .nil
    · exact nodup_filesIn h

theorem nodup_filesIn {above : List FolderRules} {path : List String}
    {entries : List (String × Entry)}
    (h : Entry.areTidy entries = true) : (filesIn ignoreDirs above path entries).Nodup := by
  cases entries with
  | nil => exact .nil
  | cons e rest =>
    obtain ⟨name, entry⟩ := e
    obtain ⟨-, hfresh, hentry, hrest⟩ := Entry.areTidy_cons.1 h
    rw [filesIn]
    -- What lies at this entry and what lies at the others differ in the name after `path`.
    refine (nodup_files hentry).append (nodup_filesIn hrest) fun l hl hr => ?_
    obtain ⟨names, -, he, -⟩ := exists_of_mem_files hentry hl
    obtain ⟨other, ho, others, -, he', -⟩ := exists_of_mem_filesIn hrest hr
    rw [he, List.append_assoc, List.singleton_append, List.append_cancel_left_eq,
      List.cons_eq_cons] at he'
    exact hfresh (he'.1 ▸ ho)
end

variable {settings : Settings} {disk : Disk} {root : Path} {above : List FolderRules}

/-- What is found below a project is a file of it. -/
theorem exists_file_of_mem_walk {project : Entry} (h : project.isTidy = true) {names : List String}
    (hn : names ∈ walk ignoreDirs above project) :
    names ≠ [] ∧ ∃ content, project.at? names = some (.file content) := by
  obtain ⟨name, -, rest, content, rfl, hat⟩ := exists_of_mem_filesIn (Entry.areTidy_entries h) hn
  exact ⟨by simp, content, hat⟩

theorem exists_of_mem_walk {project : Entry} (h : project.isTidy = true) {names : List String}
    (hn : names ∈ walk ignoreDirs above project) :
    names ≠ [] ∧ ∀ n ∈ names, Path.isName n = true := by
  obtain ⟨hne, content, hat⟩ := exists_file_of_mem_walk h hn
  exact ⟨hne, Entry.isName_of_at? h hat⟩

theorem nodup_walk {project : Entry} (h : project.isTidy = true) :
    (walk ignoreDirs above project).Nodup :=
  nodup_filesIn (Entry.areTidy_entries h)

theorem mem_sources {p : Path} (h : p ∈ sources settings disk root) :
    isSource p = true ∧ ∃ project, disk.entry? root = some project ∧
      ∃ names ∈ walk settings.ignoreDirs (rulesAbove disk root) project, p =
        root.join ("/".intercalate names) := by
  unfold sources at h
  split at h
  · simp at h
  · next project hp =>
    rw [List.mem_mergeSort, List.mem_filter, List.mem_map] at h
    obtain ⟨⟨names, hn, rfl⟩, hs⟩ := h
    exact ⟨hs, project, hp, names, hn, rfl⟩

/-- A source lies below the root, at the end of its names. -/
theorem exists_names_of_mem_sources (tidy : disk.top.isTidy = true) {names : List String}
    (hnames : ∀ n ∈ names, Path.isName n = true) {p : Path}
    (h : p ∈ sources settings disk (.ofNames names)) :
    ∃ more, more ≠ [] ∧ (∀ n ∈ names ++ more, Path.isName n = true) ∧
      p = .ofNames (names ++ more) := by
  obtain ⟨-, project, hproject, more, hmore, rfl⟩ := mem_sources h
  obtain ⟨hne, hvalid⟩ := exists_of_mem_walk (disk.isTidy_entry? tidy hproject) hmore
  have hall := List.forall_mem_append.2 ⟨hnames, hvalid⟩
  exact ⟨more, hne, hall, Path.join_ofNames hne hall⟩

/-- No two sources are one file. -/
theorem nodup_ids_sources (tidy : disk.top.isTidy = true) (hr : root.isAbsolute = true) :
    (ids (sources settings disk root)).Nodup := by
  unfold sources
  split
  · exact .nil
  · next project hp =>
    have hproject := disk.isTidy_entry? tidy hp
    have hwalk : (ids ((walk settings.ignoreDirs (rulesAbove disk root) project).map fun names =>
        root.join ("/".intercalate names))).Nodup := by
      rw [ids, List.map_map]
      refine (nodup_walk hproject).map_on fun l hl m hm he => ?_
      obtain ⟨hl, hln⟩ := exists_of_mem_walk hproject hl
      obtain ⟨hm, hmn⟩ := exists_of_mem_walk hproject hm
      simp only [Function.comp_apply, Path.components_join_names hr hl hln,
        Path.components_join_names hr hm hmn, List.append_cancel_left_eq] at he
      exact List.map_injective_iff.2 (fun _ _ h => by injection h) he
    refine ((List.mergeSort_perm _ _).map _).nodup_iff.2 (hwalk.sublist ?_)
    exact List.filter_sublist.map _

/-- What is typed by its extension is typed, as no source declares types only. -/
theorem isTypedFile_of_mem_sources (hr : root.isAbsolute = true) {p q : Path}
    (hp : p ∈ sources settings disk root) (hq : isTypedFile q = true)
    (he : p.components = q.components) : isTypedFile p = true := by
  have hname : p.fileName? = q.fileName? := by rw [Path.fileName?, Path.fileName?, he]
  have hext : p.extension? = q.extension? := by rw [Path.extension?, Path.extension?, hname]
  obtain ⟨hs, -, -, names, -, rfl⟩ := mem_sources hp
  rw [isTypedFile, Bool.and_eq_true] at hq ⊢
  refine ⟨hext ▸ hq.1, ?_⟩
  cases hd : (root.join ("/".intercalate names)).text.endsWith ".d.ts" with
  | false => rfl
  | true =>
    obtain ⟨name, hn, hend⟩ :=
      Path.fileName?_endsWith (Path.isAbsolute_join hr) (by decide) (by decide) hd
    simp [isSource, hn, hend] at hs

end QualityGate.Discovery
