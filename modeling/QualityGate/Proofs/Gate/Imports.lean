import QualityGate.Proofs.Gate.Sources
import QualityGate.Proofs.Graph.OfFiles
import QualityGate.Proofs.ProjectConfig.Precedence
import QualityGate.Proofs.Resolver

/-!
Imports meet discovery. A relative name stands for the path to which its steps lead, and that is the
path of the file there as it is discovered. So every import in a graph leads to a file, and an
imported source is the same file of the graph as the source itself.
-/
namespace QualityGate

open Syntax

namespace ProjectConfig

variable {disk : Disk} {p : Path} {document : ConfigDocument} {steps : ℕ}

theorem isAbsolute_folderOf (hp : p.isAbsolute = true) (h : document? disk p = some document) :
    (folderOf p).isAbsolute = true := by
  obtain ⟨text, hread, -⟩ := Option.bind_eq_some_iff.1 h
  cases hdisk : disk.read p with
  | error failure => simp [hdisk, Except.toOption] at hread
  | ok text' =>
    obtain ⟨dir, hdir, hdirAbsolute⟩ := Disk.exists_parent?_of_isFile hp (Disk.isFile_of_read hdisk)
    rwa [folderOf, hdir, Option.getD_some]

theorem isAbsolute_of_mem_targets {dir target : Path} {bases : List String}
    (h : dir.isAbsolute = true) (ht : target ∈ ConfigDocument.targets disk dir bases) :
    target.isAbsolute = true := by
  obtain ⟨s, -, rfl⟩ := List.mem_map.1 ht
  split_ifs <;> exact Path.isAbsolute_join h

/-- All files that count for a file start from absolute folders if it is named by an absolute
path. -/
theorem isAbsolute_of_mem_layers {l : Layer} (hp : p.isAbsolute = true)
    (hl : l ∈ layers disk steps p) :
    l.folder.isAbsolute = true := by
  induction steps generalizing p with
  | zero =>
    cases h : document? disk p with
    | none => simp [layers, h] at hl
    | some document =>
      obtain rfl : l = ⟨folderOf p, document.declared⟩ := by simpa [layers, h] using hl
      exact isAbsolute_folderOf hp h
  | succ steps ih =>
    cases h : document? disk p with
    | none => simp [layers, h] at hl
    | some document =>
      have hfolder := isAbsolute_folderOf hp h
      rw [layers, h, List.mem_cons, List.mem_flatMap] at hl
      rcases hl with rfl | ⟨target, ht, hl⟩
      · exact hfolder
      · exact ih (isAbsolute_of_mem_targets hfolder (List.mem_reverse.1 ht)) hl

theorem isAbsolute_pathsBase {config : ProjectConfig} {base : Path} (hp : p.isAbsolute = true)
    (h : load disk p = .ok config) (hbase : config.options.pathsBase = some base) :
    base.isAbsolute = true := by
  obtain ⟨-, hloaded⟩ := loaded_of_load h
  obtain ⟨b, hb, hstart⟩ := List.exists_of_findSome?_eq_some (hloaded.pathsBase ▸ hbase)
  have hfolder (l : Layer) (hl : l ∈ b) : l.folder.isAbsolute = true :=
    isAbsolute_of_mem_layers hp (flatten_branches ▸ List.mem_flatten.2 ⟨b, hb, hl⟩)
  rcases Option.or_eq_some_iff.1 hstart with hurl | ⟨-, hpaths⟩
  · obtain ⟨l, hl, hl'⟩ := List.exists_of_findSome?_eq_some hurl
    obtain ⟨url, -, rfl⟩ := Option.map_eq_some_iff.1 hl'
    exact Path.isAbsolute_join (hfolder l hl)
  · obtain ⟨l, hl, hl'⟩ := List.exists_of_findSome?_eq_some hpaths
    obtain ⟨table, -, rfl⟩ := Option.map_eq_some_iff.1 hl'
    exact hfolder l hl

theorem isAbsolute_pathsBase_orNothing {base : Path} (hp : p.isAbsolute = true)
    (hbase : (loadOrNothing disk p).options.pathsBase = some base) : base.isAbsolute = true := by
  unfold loadOrNothing at hbase
  split at hbase
  · next config h => exact isAbsolute_pathsBase hp h hbase
  · simp [CompilerOptions.none] at hbase

theorem isAbsolute_inFolder? {dir config : Path} (h : dir.isAbsolute = true)
    (hc : inFolder? disk dir = some config) : config.isAbsolute = true := by
  obtain ⟨name, -, rfl⟩ := List.mem_map.1 (List.mem_of_find?_eq_some hc)
  exact Path.isAbsolute_join h

/-- The project as a whole answers to a configuration in its own folder. -/
theorem nearest?_root (disk : Disk) (root : Path) :
    nearest? disk root root = inFolder? disk root := by
  rw [nearest?, nearestFrom]
  split
  · next config h => exact h.symm
  · next h => rw [if_pos (Path.same_iff.2 rfl), h]

end ProjectConfig

namespace Resolver

theorem isAbsolute_alias? {base : Path} (h : base.isAbsolute = true) {pattern : String}
    {targets : List String} {a : Alias} (ha : alias? base pattern targets = some a) :
    a.base.isAbsolute = true := by
  cases targets with
  | nil => simp [alias?] at ha
  | cons target targets =>
    simp only [alias?, Option.ite_none_left_eq_some, Option.some.injEq] at ha
    obtain ⟨-, rfl⟩ := ha
    dsimp only
    exact Path.isAbsolute_normalize (Path.isAbsolute_join h)

theorem mem_aliases_ofOptions {root : Path} {options : Option CompilerOptions} {a : Alias}
    (ha : a ∈ (ofOptions root options).aliases) :
    a = ⟨"@", root.join "src"⟩ ∨ ∃ o ∈ options, ∃ pattern targets,
      alias? (o.pathsBase.getD root) pattern targets = some a := by
  have hmem := List.mem_mergeSort.1 ha
  cases options with
  | none => exact .inl (List.mem_singleton.1 hmem)
  | some o =>
    simp only at hmem
    split_ifs at hmem
    · exact .inl (List.mem_singleton.1 hmem)
    · obtain ⟨⟨pattern, targets⟩, -, h⟩ := List.mem_filterMap.1 hmem
      exact .inr ⟨o, rfl, pattern, targets, h⟩

theorem hasAbsoluteAliases_ofOptions {root : Path} (hroot : root.isAbsolute = true)
    {options : Option CompilerOptions}
    (h : ∀ o ∈ options, ∀ base, o.pathsBase = some base → base.isAbsolute = true) :
    (ofOptions root options).HasAbsoluteAliases := by
  intro a ha
  rcases mem_aliases_ofOptions ha with rfl | ⟨o, ho, pattern, targets, ha⟩
  · exact Path.isAbsolute_join hroot
  · refine isAbsolute_alias? ?_ ha
    cases hbase : o.pathsBase with
    | none => exact hroot
    | some base => exact h o ho base hbase

/-- The aliases of a project lead to absolute paths. -/
theorem hasAbsoluteAliases_resolver {disk : Disk} {root : Path} (hroot : root.isAbsolute = true) :
    (Program.resolver disk root).HasAbsoluteAliases := by
  refine hasAbsoluteAliases_ofOptions hroot fun o ho base hbase => ?_
  obtain ⟨p, hp, rfl⟩ := Option.map_eq_some_iff.1 ho
  rw [ProjectConfig.nearest?_root] at hp
  exact ProjectConfig.isAbsolute_pathsBase_orNothing
    (ProjectConfig.isAbsolute_inFolder? hroot hp) hbase

end Resolver

namespace Gate

open QualityGate.Path Resolver

variable {settings : Settings} {disk : Disk} {root f s : Path} {top target : List String}

/-- A source is a file below the root, discovered along the names that lead to it. -/
theorem along_of_mem_sources (tidy : disk.top.isTidy = true) (hroot : root.Along top)
    (h : s ∈ Discovery.sources settings disk root) :
    ∃ names, names ≠ [] ∧ s.Along (top ++ names) ∧ disk.HoldsFile (top ++ names) := by
  obtain ⟨-, project, hproject, names, hnames, rfl⟩ := Discovery.mem_sources h
  have hfile := Discovery.exists_file_of_mem_walk (disk.isTidy_entry? tidy hproject) hnames
  obtain ⟨hne, hvalid⟩ := Discovery.exists_of_mem_walk (disk.isTidy_entry? tidy hproject) hnames
  obtain ⟨-, content, hcontent⟩ := hfile
  refine ⟨names, hne, hroot.join hne hvalid, content, ?_⟩
  obtain ⟨found, hfound, hat⟩ :
      ∃ found, disk.locate root = .ok found ∧ disk.top.at? found = some project := by
    unfold Disk.entry? at hproject
    split at hproject
    · next found hfound => exact ⟨found, hfound, hproject⟩
    · simp at hproject
  obtain rfl := Disk.eq_of_locate hroot hfound
  rw [Entry.at?_append, hat, Option.bind_some, hcontent]

/-- The import of a source by a relative name is an import of the file that is discovered there. -/
theorem edge_of_leads (tidy : disk.top.isTidy = true) (hroot : root.Along top) {r : Resolver}
    {files : List SourceFile} {file : SourceFile} (hfile : file ∈ files) {i : Import}
    (hi : i ∈ Import.ofFile file) (hleads : Leads file.path i.source target)
    (hs : s ∈ Discovery.sources settings disk root) (htarget : s.Along target) :
    (Graph.ofFiles disk r files).Edge file.path.components s.components := by
  obtain ⟨names, hne, halong, hholds⟩ := along_of_mem_sources tidy hroot hs
  obtain rfl : target = top ++ names := htarget.unique halong
  have hresolved :=
    hleads.resolve?_of_holdsFile r (List.append_ne_nil_of_right_ne_nil top hne) hholds
  refine Graph.edge_ofFiles.2 ⟨file, hfile, rfl,
    mem_ids.2 ⟨_, List.mem_filterMap.2 ⟨i, hi, hresolved⟩, ?_⟩⟩
  exact (along_ofNames hleads.isName).trans htarget.symm

/-- An imported source is the source that is discovered, even through an alias, unless its name
climbs above the top of the disk. -/
theorem components_eq_of_mem_imports (tidy : disk.top.isTidy = true) (hroot : root.Along top)
    {files : List SourceFile}
    (hfiles : ∀ file ∈ files, file.path ∈ Discovery.sources settings disk root) {p q : Path}
    (hq : q ∈ (Graph.ofFiles disk (Program.resolver disk root) files).imports p)
    (hup : .up ∉ q.components) (hs : s ∈ Discovery.sources settings disk root)
    (hsame : disk.locate q = disk.locate s) : q.components = s.components := by
  obtain ⟨file, hfile, -, i, -, hresolved⟩ := Graph.exists_of_mem_imports hq
  obtain ⟨below, hbelow, hpath, -⟩ := along_of_mem_sources tidy hroot (hfiles file hfile)
  obtain ⟨names, -, hnames, -⟩ := along_of_mem_sources tidy hroot hs
  obtain ⟨folder, name, rfl⟩ := (List.eq_nil_or_concat' below).resolve_left hbelow
  rw [← List.append_assoc] at hpath
  have hqAbsolute :=
    isAbsolute_of_resolve? (hasAbsoluteAliases_resolver hroot.isAbsolute) hpath hresolved
  obtain ⟨qnames, hqnames⟩ := exists_along hqAbsolute hup
  obtain ⟨found, hfound, -⟩ := Disk.isFile_iff.1 (isFile_of_resolve? hresolved)
  have hq := Disk.eq_of_locate hqnames hfound
  have hs := Disk.eq_of_locate hnames (hsame ▸ hfound)
  rw [hqnames, hnames, ← hq, hs]

/-- Imports meet discovery. A relative name that does not climb above the top leads somewhere. It
stands for just the path of the file to which its steps lead, and means this file if it exists; else
it means the first existing file among those beside and below the path. What is imported exists, and
an imported source is one file of the graph with the discovered one. -/
theorem imports_meet_discovery (settings : Settings) (tidy : disk.top.isTidy = true)
    (hroot : root.Along top) :
    (∀ (f : Path) (folder : List String) (file specifier : String), f.Along (folder ++ [file]) →
      specifier.toList.head? = some '.' → ¬ Climbs folder (split specifier.toList) →
        ∃ target, Leads f specifier target) ∧
    (∀ (r : Resolver) (f : Path) (specifier : String) (target : List String),
      Leads f specifier target →
      ∃ c, r.candidate? specifier f = some c ∧
        (∀ g : Path, g.Along target →
          c.components = g.components ∧
            (disk.isFile g = true → r.resolve? disk specifier f = some c)) ∧
        ∀ folder name, target = folder ++ [name] → disk.isFile c = false →
          ∃ typed, TypedNames name typed ∧
            r.resolve? disk specifier f = (meanings disk folder name typed).find? disk.isFile) ∧
    (∀ (r : Resolver) (files : List SourceFile) (p q : Path),
      q ∈ (Graph.ofFiles disk r files).imports p → disk.isFile q = true) ∧
    (∀ (r : Resolver) (files : List SourceFile), ∀ file ∈ files, ∀ i ∈ Import.ofFile file,
      ∀ s ∈ Discovery.sources settings disk root, ∀ target, s.Along target →
        Leads file.path i.source target →
          (Graph.ofFiles disk r files).Edge file.path.components s.components) ∧
    (∀ files : List SourceFile, (∀ file ∈ files, file.path ∈ Discovery.sources settings disk root) →
      ∀ p q, q ∈ (Graph.ofFiles disk (Program.resolver disk root) files).imports p →
      .up ∉ q.components →
        ∀ s ∈ Discovery.sources settings disk root, disk.locate q = disk.locate s →
          q.components = s.components) := by
  refine ⟨fun f folder file specifier hf hspec hclimbs => exists_leads hf hspec hclimbs,
    fun r f specifier target hleads => ?_, fun r files p q hq => ?_,
    fun r files file hfile i hi s hs target htarget hleads =>
      edge_of_leads tidy hroot hfile hi hleads hs htarget,
    fun files hfiles p q hq hup s hs => components_eq_of_mem_imports tidy hroot hfiles hq hup hs⟩
  · have hc := along_ofNames hleads.isName
    refine ⟨_, hleads.candidate? r, fun g hg => ⟨hc.trans hg.symm, fun hfile => ?_⟩,
      fun folder name htarget hno => ?_⟩
    · exact hleads.resolve?_of_holdsFile r (Disk.ne_nil_of_isFile hg hfile)
        (Disk.holdsFile_of_isFile hg hfile)
    · obtain ⟨typed, ht⟩ := exists_typedNames name
      exact ⟨typed, ht, hleads.resolve?_of_no_file r htarget hno ht⟩
  · obtain ⟨file, -, -, i, -, hresolved⟩ := Graph.exists_of_mem_imports hq
    exact isFile_of_resolve? hresolved

def folders : Entry := .folder
  [("lib", .folder [("b.tsx", .file (some ""))]),
   ("src", .folder [("a.ts", .file (some "import \"./.././lib/b.js\";"))])]

def twoFolders : Disk where
  top := .folder [("p", folders)]
  here := []

theorem sources_twoFolders : Discovery.sources .default twoFolders ⟨"/p"⟩ =
    [⟨"/p/lib/b.tsx"⟩, ⟨"/p/src/a.ts"⟩] := by
  have hentry : twoFolders.entry? ⟨"/p"⟩ = some folders := rfl
  have hfound :
      ((Discovery.walk Settings.default.ignoreDirs (Discovery.rulesAbove twoFolders ⟨"/p"⟩)
        folders).map fun names => Path.join ⟨"/p"⟩ ("/".intercalate names)).filter
          Discovery.isSource = [⟨"/p/lib/b.tsx"⟩, ⟨"/p/src/a.ts"⟩] := by
    decide +kernel
  rw [Discovery.sources, hentry]
  simp only [hfound]
  exact List.mergeSort_of_pairwise (by decide)

theorem imports_twoFolders : (Graph.ofFiles twoFolders (Program.resolver twoFolders ⟨"/p"⟩)
    (Sources.load .default twoFolders ⟨"/p"⟩).files).imports ⟨"/p/src/a.ts"⟩ =
      [⟨"/p/lib/b.tsx"⟩] := by
  rw [Sources.load, sources_twoFolders]
  decide +kernel

theorem leads_twoFolders {name specifier : String} (hname : isName name = true)
    (hrelative : specifier.toList.head? = some '.')
    (hsplit : split specifier.toList = [['.'], ['.', '.'], ['.'], "lib".toList, name.toList]) :
    Leads ⟨"/p/src/a.ts"⟩ specifier ["p", "lib", name] := by
  have hdown : Walk ["p"] [['.'], "lib".toList, name.toList] ["p", "lib", name] :=
    .stay rfl (.down rfl (.down hname .done))
  have hup : Walk (["p"] ++ ["src"]) [['.'], ['.', '.'], ['.'], "lib".toList, name.toList]
      ["p", "lib", name] := .stay rfl (.up hdown)
  have halong : Along ⟨"/p/src/a.ts"⟩ (["p", "src"] ++ ["a.ts"]) := rfl
  exact .intro halong hrelative (hsplit ▸ hup)

/-- The file is found by its own name and by that of a script, and what is imported is the
discovered file. -/
theorem imports_meet_discovery_twoFolders :
    (∃ c, Resolver.resolve? ⟨[]⟩ twoFolders "./.././lib/b.tsx" ⟨"/p/src/a.ts"⟩ = some c ∧
      c.components = components ⟨"/p/lib/b.tsx"⟩) ∧
    (∃ typed, TypedNames "b.js" typed ∧
      Resolver.resolve? ⟨[]⟩ twoFolders "./.././lib/b.js" ⟨"/p/src/a.ts"⟩ =
        (meanings twoFolders ["p", "lib"] "b.js" typed).find? twoFolders.isFile) ∧
    ∃ q ∈ (Graph.ofFiles twoFolders (Program.resolver twoFolders ⟨"/p"⟩)
        (Sources.load .default twoFolders ⟨"/p"⟩).files).imports ⟨"/p/src/a.ts"⟩,
      q.components = components ⟨"/p/lib/b.tsx"⟩ := by
  have hspec := @imports_meet_discovery twoFolders ⟨"/p"⟩ ["p"] .default (by decide) rfl
  obtain ⟨c, -, hfound, -⟩ := hspec.2.1 ⟨[]⟩ _ _ _
    (leads_twoFolders (show isName "b.tsx" = true by decide)
      (show "./.././lib/b.tsx".toList.head? = some '.' by decide) (by decide))
  obtain ⟨hsame, hresolved⟩ := hfound ⟨"/p/lib/b.tsx"⟩ rfl
  obtain ⟨script, hscript, -, hmeant⟩ := hspec.2.1 ⟨[]⟩ _ _ _
    (leads_twoFolders (show isName "b.js" = true by decide)
      (show "./.././lib/b.js".toList.head? = some '.' by decide) (by decide))
  have hno : twoFolders.isFile script = false := by
    obtain rfl : ofNames ["p", "lib", "b.js"] = script := by
      have hcandidate : Resolver.candidate? ⟨[]⟩ "./.././lib/b.js" ⟨"/p/src/a.ts"⟩ =
        some (ofNames ["p", "lib", "b.js"]) := by decide
      exact Option.some.inj (hcandidate.symm.trans hscript)
    decide
  refine ⟨⟨c, hresolved (by decide), hsame⟩, hmeant ["p", "lib"] "b.js" rfl hno, ?_⟩
  exact ⟨_, imports_twoFolders ▸ List.mem_singleton_self _,
    hspec.2.2.2.2 _ (fun _ => mem_sources_of_mem_files) ⟨"/p/src/a.ts"⟩ _
      (imports_twoFolders ▸ List.mem_singleton_self _) (by decide) ⟨"/p/lib/b.tsx"⟩
      (sources_twoFolders ▸ List.mem_cons_self) rfl⟩

end Gate

end QualityGate
