import QualityGate.Proofs.Discovery
import QualityGate.Proofs.Resolver

/-!
What the search for source files finds where no ignore file has a say. A file is found by its own
name and by the folders that lead to it: hidden entries and ignored folders are left out with all
that lies below them, and nothing else is. The files come in the order of their paths.
-/
namespace QualityGate.Discovery

open Syntax

def holdsFile (folder : Entry) (names : List String) : Bool :=
  (folder.at? names).any Entry.isFile

mutual
/-- Whether no folder of a tree has an ignore file. -/
def isUnruled : Entry → Bool
  | .file _ => true
  | .folder entries => ignorePlaces.all (!holdsFile (.folder entries) ·) && areUnruled entries

def areUnruled : List (String × Entry) → Bool
  | [] => true
  | (_, entry) :: rest => isUnruled entry && areUnruled rest
end

/-- Whether no folder above the end of `names` has an ignore file. -/
def isUnruledAbove : List String → Entry → Bool
  | [], _ => true
  | name :: names, folder => ignorePlaces.all (!holdsFile folder ·) &&
      ((folder.child? name).map (isUnruledAbove names)).getD true

variable {dirs : List String} {above : List FolderRules} {path l : List String} {name : String}

theorem rulesAt_eq_nil {folder : Entry} {names : List String} (h : holdsFile folder names = false) :
    rulesAt folder names = [] := by
  unfold rulesAt
  split
  · next text hfile => simp [holdsFile, hfile, Entry.isFile] at h
  · rfl

/-- Folders whose ignore files say nothing. -/
def Silent (above : List FolderRules) : Prop := ∀ folder ∈ above, ∀ rules ∈ folder.files, rules = []

theorem files_ofFolder {folder : Entry} (down path : List String)
    (h : ignorePlaces.all (!holdsFile folder ·) = true) :
    ∀ rules ∈ (FolderRules.ofFolder down path folder).files, rules = [] := by
  intro rules hrules
  obtain ⟨names, hn, rfl⟩ := List.mem_map.1 hrules
  exact rulesAt_eq_nil (by simpa using List.all_eq_true.1 h names hn)

theorem Silent.cons {entries : List (String × Entry)} (hs : Silent above)
    (h : isUnruled (.folder entries) = true) :
    Silent (.ofFolder [] path (.folder entries) :: above) :=
  List.forall_mem_cons.2 ⟨files_ofFolder [] path (Bool.and_eq_true_iff.1 h).1, hs⟩

theorem silent_above {names : List String} {top : Entry} (h : isUnruledAbove names top = true) :
    Silent (FolderRules.above names top) := by
  induction names generalizing top with
  | nil => exact List.forall_mem_nil _
  | cons name names ih =>
    obtain ⟨hplaces, hbelow⟩ := Bool.and_eq_true_iff.1 h
    refine List.forall_mem_append.2
      ⟨?_, List.forall_mem_singleton.2 (files_ofFolder (name :: names) [] hplaces)⟩
    cases hchild : top.child? name with
    | none => exact List.forall_mem_nil _
    | some child => exact ih (by simpa [hchild] using hbelow)

theorem Silent.verdict?_eq_none (hs : Silent above) (path : List String) (folder : Bool) :
    verdict? above path folder = none := by
  refine List.findSome?_eq_none_iff.2 fun kind _ => List.findSome?_eq_none_iff.2 fun f hf => ?_
  have hnone : f.files[kind]?.getD [] = [] := by
    cases hk : f.files[kind]? with
    | none => rfl
    | some rules => exact hs f hf rules (List.mem_of_getElem? hk)
  rw [hnone]
  rfl

/-- Where ignore files say nothing, what is left out is what is hidden. -/
theorem Silent.isExcluded_eq (hs : Silent above) (folder : Bool) :
    isExcluded above (path ++ [name]) folder = isHidden name := by
  rw [isExcluded, hs.verdict?_eq_none]
  simp

/-- The search goes along these names: none is hidden, and none but the last may be that of an
ignored folder. -/
structure Searched (dirs names : List String) : Prop where
  visible : ∀ n ∈ names, isHidden n = false
  entered : ∀ n ∈ names.dropLast, n ∉ dirs

theorem searched_singleton : Searched dirs [name] ↔ isHidden name = false :=
  ⟨fun h => h.visible name (List.mem_singleton_self name), fun h => ⟨by simpa using h, by simp⟩⟩

theorem searched_cons {names : List String} (hne : names ≠ []) :
    Searched dirs (name :: names) ↔ isHidden name = false ∧ name ∉ dirs ∧ Searched dirs names := by
  constructor
  · rintro ⟨hvisible, hentered⟩
    rw [List.dropLast_cons_of_ne_nil hne] at hentered
    obtain ⟨hname, hnames⟩ := List.forall_mem_cons.1 hvisible
    obtain ⟨hin, hins⟩ := List.forall_mem_cons.1 hentered
    exact ⟨hname, hin, hnames, hins⟩
  · rintro ⟨hname, hin, hnames, hins⟩
    refine ⟨List.forall_mem_cons.2 ⟨hname, hnames⟩, ?_⟩
    rw [List.dropLast_cons_of_ne_nil hne]
    exact List.forall_mem_cons.2 ⟨hin, hins⟩

theorem at?_file {content : Option String} {names : List String} {entry : Entry} :
    (Entry.file content).at? names = some entry ↔ names = [] ∧ entry = .file content := by
  cases names with
  | nil => simp [Entry.at?, eq_comm]
  | cons n ns => simp [Entry.at?, Entry.child?, Entry.entries]

theorem ne_nil_of_at?_folder {entries : List (String × Entry)} {names : List String}
    {content : Option String} (h : (Entry.folder entries).at? names = some (.file content)) :
    names ≠ [] := by
  rintro rfl
  simp [Entry.at?] at h

mutual
/-- A file is listed with an entry if it is found at the end of names that are searched. -/
theorem mem_files_iff {above : List FolderRules} {path l : List String} {name : String}
    {entry : Entry} (hs : Silent above) (tidy : entry.isTidy = true)
    (hrules : isUnruled entry = true) :
    l ∈ files dirs above (path ++ [name]) entry ↔
      ∃ names content, l = path ++ name :: names ∧ entry.at? names = some (.file content) ∧
        Searched dirs (name :: names) := by
  cases entry with
  | file content =>
    rw [files, hs.isExcluded_eq]
    constructor
    · intro h
      split_ifs at h with hhidden
      · simp at h
      · exact ⟨[], content, by simpa using h, rfl, searched_singleton.2 (by simpa using hhidden)⟩
    · rintro ⟨names, other, rfl, hat, hsearched⟩
      obtain ⟨rfl, -⟩ := at?_file.1 hat
      simp [searched_singleton.1 hsearched]
  | folder entries =>
    have hin : l ∈ filesIn dirs (.ofFolder [] (path ++ [name]) (.folder entries) :: above)
        (path ++ [name]) entries ↔ _ :=
      mem_filesIn_iff (hs.cons hrules) tidy (Bool.and_eq_true_iff.1 hrules).2
    rw [files, hs.isExcluded_eq, List.getLast?_concat]
    constructor
    · intro h
      split_ifs at h with hout
      · simp at h
      · simp only [Option.map_some, Bool.or_eq_true, beq_iff_eq, Option.some.injEq, not_or,
          Bool.not_eq_true] at hout
        obtain ⟨names, content, rfl, hat, hsearched⟩ := hin.1 h
        have hvisit : Searched dirs (name :: names) :=
          (searched_cons (ne_nil_of_at?_folder hat)).2 ⟨hout.1, by simpa using hout.2, hsearched⟩
        exact ⟨names, content, by simp, hat, hvisit⟩
    · rintro ⟨names, content, rfl, hat, hsearched⟩
      obtain ⟨hvisible, hentered, hbelow⟩ := (searched_cons (ne_nil_of_at?_folder hat)).1 hsearched
      rw [if_neg (by simp [hvisible, hentered])]
      exact hin.2 ⟨names, content, by simp, hat, hbelow⟩

theorem mem_filesIn_iff {above : List FolderRules} {path l : List String}
    {entries : List (String × Entry)} (hs : Silent above) (tidy : Entry.areTidy entries = true)
    (hrules : areUnruled entries = true) :
    l ∈ filesIn dirs above path entries ↔ ∃ names content, l = path ++ names ∧
      (Entry.folder entries).at? names = some (.file content) ∧ Searched dirs names := by
  cases entries with
  | nil =>
    simp only [filesIn, List.not_mem_nil, false_iff, not_exists, not_and]
    intro names content _ hat
    obtain ⟨n, ns, rfl⟩ := List.exists_cons_of_ne_nil (ne_nil_of_at?_folder hat)
    simp [Entry.at?, Entry.child?, Entry.entries] at hat
  | cons e rest =>
    obtain ⟨first, entry⟩ := e
    obtain ⟨-, hfresh, hentry, hrest⟩ := Entry.areTidy_cons.1 tidy
    obtain ⟨hrules, hothers⟩ := Bool.and_eq_true_iff.1 hrules
    rw [filesIn, List.mem_append, mem_files_iff hs hentry hrules, mem_filesIn_iff hs hrest hothers]
    constructor
    · rintro (⟨names, content, rfl, hat, hsearched⟩ | ⟨names, content, rfl, hat, hsearched⟩)
      · refine ⟨first :: names, content, rfl, ?_, hsearched⟩
        rwa [Entry.at?, Entry.child?_cons_self]
      · obtain ⟨n, ns, rfl⟩ := List.exists_cons_of_ne_nil (ne_nil_of_at?_folder hat)
        have hne : first ≠ n := by
          rintro rfl
          obtain ⟨child, hchild, -⟩ := Option.bind_eq_some_iff.1 hat
          obtain ⟨e, he, -⟩ := Option.map_eq_some_iff.1 hchild
          have heq : e.1 = first := by simpa using List.find?_some he
          exact hfresh (heq ▸ List.mem_map_of_mem (List.mem_of_find?_eq_some he))
        refine ⟨n :: ns, content, rfl, ?_, hsearched⟩
        rwa [Entry.at?, Entry.child?_cons_of_ne hne]
    · rintro ⟨names, content, rfl, hat, hsearched⟩
      obtain ⟨n, ns, rfl⟩ := List.exists_cons_of_ne_nil (ne_nil_of_at?_folder hat)
      by_cases hn : first = n
      · subst hn
        rw [Entry.at?, Entry.child?_cons_self] at hat
        exact .inl ⟨ns, content, rfl, hat, hsearched⟩
      · rw [Entry.at?, Entry.child?_cons_of_ne hn] at hat
        exact .inr ⟨n :: ns, content, rfl, hat, hsearched⟩
end

/-- A name that ends in one of these extensions, with something before the point. -/
def HasExtension (extensions : List String) (name : String) : Prop :=
  ∃ stem, ∃ ext ∈ extensions, stem ≠ "" ∧ name = stem ++ "." ++ ext

theorem hasExtension_iff {extensions : List String} (h : ∀ ext ∈ extensions, '.' ∉ ext.toList) :
    HasExtension extensions name ↔ ∃ ext ∈ extensions, (Path.splitExtension name).2 = some ext := by
  constructor
  · rintro ⟨stem, ext, hext, hstem, rfl⟩
    exact ⟨ext, hext, by rw [Path.splitExtension_point hstem (h ext hext)]⟩
  · rintro ⟨ext, hext, hname⟩
    obtain ⟨hname, hstem⟩ := Path.eq_of_splitExtension (Prod.ext rfl hname)
    exact ⟨_, ext, hext, hstem, hname⟩

def supported : List String := ["ts", "mts", "cts", "tsx", "js", "jsx", "mjs", "cjs"]

theorem isSome_ofExtension?_iff {ext : String} :
    (Language.ofExtension? ext).isSome = true ↔ ext ∈ supported := by
  unfold Language.ofExtension?
  split <;> simp_all [supported]

variable {p root : Path}

theorem isSome_ofPath?_iff (h : p.extension? = (Path.splitExtension name).2) :
    (Language.ofPath? p).isSome = true ↔ HasExtension supported name := by
  rw [hasExtension_iff (by decide), Language.ofPath?, h, Option.isSome_bind, Option.any_eq_true]
  exact exists_congr fun ext => by rw [isSome_ofExtension?_iff, and_comm]

theorem isComponentFile_iff (h : p.extension? = (Path.splitExtension name).2) :
    isComponentFile p = true ↔ HasExtension ["tsx", "jsx"] name := by
  simp [hasExtension_iff, isComponentFile, h]

theorem isTypedFile_iff (h : p.extension? = (Path.splitExtension name).2) :
    isTypedFile p = true ↔
      HasExtension ["ts", "tsx", "mts", "cts"] name ∧ p.text.endsWith ".d.ts" = false := by
  rw [hasExtension_iff (by decide), isTypedFile, h, Bool.and_eq_true, Bool.not_eq_true']
  refine and_congr_left fun _ => ?_
  split <;> simp_all

def pathOf (root : Path) (folders : List String) (name : String) : Path :=
  root.join ("/".intercalate (folders ++ [name]))

/-- The project has a file `name` at the end of `folders` that the search comes to, and that does
not declare types only. -/
structure Listed (dirs : List String) (project : Entry) (folders : List String)
    (name : String) : Prop where
  file : ∃ content, project.at? (folders ++ [name]) = some (.file content)
  visible : ∀ n ∈ folders ++ [name], isHidden n = false
  entered : ∀ n ∈ folders, n ∉ dirs
  defining : name.endsWith ".d.ts" = false

/-- These paths are, each before all that follow it, those of the listed files with one of the
extensions. -/
structure Listing (dirs : List String) (project : Entry) (root : Path) (extensions : List String)
    (ps : List Path) : Prop where
  ordered : ps.Pairwise fun p q => p.before q = true
  mem_iff : ∀ p, p ∈ ps ↔ ∃ folders name,
    Listed dirs project folders name ∧ HasExtension extensions name ∧ p = pathOf root folders name

variable {folders : List String} {project : Entry} {entries : List (String × Entry)}

theorem fileName?_pathOf (hr : root.isAbsolute = true)
    (h : ∀ n ∈ folders ++ [name], Path.isName n = true) :
    (pathOf root folders name).fileName? = some name := by
  rw [Path.fileName?, pathOf, Path.components_join_names hr (by simp) h,
    List.map_append, ← List.append_assoc, List.map_singleton, List.getLast?_concat]

theorem extension?_pathOf (hr : root.isAbsolute = true)
    (h : ∀ n ∈ folders ++ [name], Path.isName n = true) :
    (pathOf root folders name).extension? = (Path.splitExtension name).2 := by
  rw [Path.extension?, fileName?_pathOf hr h, Option.bind_some]

theorem isSource_pathOf_iff (hr : root.isAbsolute = true)
    (h : ∀ n ∈ folders ++ [name], Path.isName n = true) :
    isSource (pathOf root folders name) = true ↔
      HasExtension supported name ∧ name.endsWith ".d.ts" = false := by
  rw [isSource, Bool.and_eq_true, isSome_ofPath?_iff (extension?_pathOf hr h),
    fileName?_pathOf hr h]
  simp

/-- A path of a typed file ends as its name does. -/
theorem isTypedFile_pathOf_iff (hr : root.isAbsolute = true)
    (h : ∀ n ∈ folders ++ [name], Path.isName n = true) (hname : name.endsWith ".d.ts" = false) :
    isTypedFile (pathOf root folders name) = true ↔
      HasExtension ["ts", "tsx", "mts", "cts"] name := by
  rw [isTypedFile_iff (extension?_pathOf hr h)]
  refine and_iff_left (Bool.eq_false_iff.2 fun hend => ?_)
  obtain ⟨last, hlast, hend⟩ :=
    Path.fileName?_endsWith (Path.isAbsolute_join hr) (by decide) (by decide) hend
  obtain rfl : name = last := Option.some.inj ((fileName?_pathOf hr h).symm.trans hlast)
  simp [hname] at hend

theorem mem_walk_iff (habove : Silent above) (tidy : (Entry.folder entries).isTidy = true)
    (hrules : isUnruled (.folder entries) = true) {names : List String} :
    names ∈ walk dirs above (.folder entries) ↔
      (∃ content, (Entry.folder entries).at? names = some (.file content)) ∧
        Searched dirs names := by
  rw [walk, Entry.entries,
    mem_filesIn_iff (habove.cons hrules) tidy (Bool.and_eq_true_iff.1 hrules).2]
  simp [exists_and_right]

variable {settings : Settings} {disk : Disk}

/-- What is found are the listed files that can be parsed. -/
theorem mem_sources_iff (tidy : disk.top.isTidy = true) (hr : root.isAbsolute = true)
    (hroot : disk.entry? root = some (.folder entries))
    (hrules : isUnruled (.folder entries) = true) (habove : Silent (rulesAbove disk root)) :
    p ∈ sources settings disk root ↔ ∃ folders name,
      Listed settings.ignoreDirs (.folder entries) folders name ∧ HasExtension supported name ∧
        p = pathOf root folders name := by
  have hproject := disk.isTidy_entry? tidy hroot
  have hmem : p ∈ sources settings disk root ↔
      (∃ names ∈ walk settings.ignoreDirs (rulesAbove disk root) (.folder entries),
        root.join ("/".intercalate names) = p) ∧
        isSource p = true := by
    simp only [sources, hroot, List.mem_mergeSort, List.mem_filter, List.mem_map]
  rw [hmem]
  constructor
  · rintro ⟨⟨names, hn, rfl⟩, hsource⟩
    obtain ⟨⟨content, hat⟩, hvisible, hentered⟩ := (mem_walk_iff habove hproject hrules).1 hn
    obtain ⟨folders, name, rfl⟩ :=
      (List.eq_nil_or_concat' names).resolve_left (ne_nil_of_at?_folder hat)
    obtain ⟨hext, hdefining⟩ :=
      (isSource_pathOf_iff hr (Entry.isName_of_at? hproject hat)).1 hsource
    rw [List.dropLast_concat] at hentered
    exact ⟨folders, name, ⟨⟨content, hat⟩, hvisible, hentered, hdefining⟩, hext, rfl⟩
  · rintro ⟨folders, name, ⟨⟨content, hat⟩, hvisible, hentered, hdefining⟩, hext, rfl⟩
    have hsearched : Searched settings.ignoreDirs (folders ++ [name]) :=
      ⟨hvisible, by rwa [List.dropLast_concat]⟩
    exact ⟨⟨_, (mem_walk_iff habove hproject hrules).2 ⟨⟨content, hat⟩, hsearched⟩, rfl⟩,
      (isSource_pathOf_iff hr (Entry.isName_of_at? hproject hat)).2 ⟨hext, hdefining⟩⟩

/-- Each source comes before all that follow it. -/
theorem pairwise_before_sources (tidy : disk.top.isTidy = true) (hr : root.isAbsolute = true) :
    (sources settings disk root).Pairwise fun p q => p.before q = true := by
  have hordered : (sources settings disk root).Pairwise fun p q => p.le q = true := by
    unfold sources
    split
    · exact .nil
    · exact @List.pairwise_mergeSort _ Path.le (fun _ _ _ => Path.le_trans) Path.le_total _
  have hdifferent : (sources settings disk root).Pairwise fun p q => p.components ≠ q.components :=
    List.pairwise_map.1 (nodup_ids_sources tidy hr)
  refine hordered.imp₂ (fun p q hle hne => ?_) hdifferent
  exact (Path.ltComponents_total hne).resolve_right (by simpa [Path.le, Path.before] using hle)

/-- A test of the paths that tells the extensions of listed files makes a listing of those it
accepts. -/
theorem Listing.filter {extensions fewer : List String} {ps : List Path} {accepts : Path → Bool}
    (h : Listing dirs project root extensions ps) (hsub : fewer ⊆ extensions)
    (htells : ∀ folders name, Listed dirs project folders name →
      (accepts (pathOf root folders name) = true ↔ HasExtension fewer name)) :
    Listing dirs project root fewer (ps.filter accepts) := by
  refine ⟨h.ordered.filter _, fun p => ?_⟩
  rw [List.mem_filter, h.mem_iff]
  constructor
  · rintro ⟨⟨folders, name, hlisted, -, rfl⟩, haccepts⟩
    exact ⟨folders, name, hlisted, (htells folders name hlisted).1 haccepts, rfl⟩
  · rintro ⟨folders, name, hlisted, hext, rfl⟩
    obtain ⟨stem, ext, hmem, hname⟩ := id hext
    exact ⟨⟨folders, name, hlisted, ⟨stem, ext, hsub hmem, hname⟩, rfl⟩,
      (htells folders name hlisted).2 hext⟩

/-- A project without ignore files, in it or above it, is searched for all its files with a
supported extension. Left out are those that declare types only, what is hidden or lies below
something hidden, and what lies below an ignored folder; a file, or the project itself, may have the
name of an ignored folder. The files that may hold markup, and the files whose types are checked,
are listed in the same order. -/
theorem listing_sources {names : List String} (tidy : disk.top.isTidy = true)
    (hr : root.isAbsolute = true) (hnames : disk.locate root = .ok names)
    (hroot : disk.top.at? names = some (.folder entries))
    (hrules : isUnruled (.folder entries) = true) (habove : isUnruledAbove names disk.top = true) :
    let found := sources settings disk root
    let listing := Listing settings.ignoreDirs (.folder entries) root
    listing ["ts", "mts", "cts", "tsx", "js", "jsx", "mjs", "cjs"] found ∧
      listing ["tsx", "jsx"] (found.filter isComponentFile) ∧
      listing ["ts", "tsx", "mts", "cts"] (found.filter isTypedFile) := by
  have hentry : disk.entry? root = some (.folder entries) := by
    simp only [Disk.entry?, hnames, hroot]
  have hsilent : Silent (rulesAbove disk root) := by
    rw [rulesAbove, hnames]
    exact silent_above habove
  have hfound :
      Listing settings.ignoreDirs (.folder entries) root supported (sources settings disk root) :=
    ⟨pairwise_before_sources tidy hr, fun p => mem_sources_iff tidy hr hentry hrules hsilent⟩
  have hlisted : ∀ {folders name}, Listed settings.ignoreDirs (.folder entries) folders name →
      ∀ n ∈ folders ++ [name], Path.isName n = true := fun hlisted =>
    Entry.isName_of_at? (disk.isTidy_entry? tidy hentry) hlisted.file.choose_spec
  refine ⟨hfound, hfound.filter (by decide) fun folders name h => ?_,
    hfound.filter (by decide) fun folders name h => ?_⟩
  · exact isComponentFile_iff (extension?_pathOf hr (hlisted h))
  · exact isTypedFile_pathOf_iff hr (hlisted h) h.defining

/-- Files and folders with the names of ignored folders, the project among them. -/
def distEntries : List (String × Entry) :=
  [(".cache", .folder [("a.ts", .file (some ""))]),
   ("b.jsx", .file (some "")),
   ("dist", .folder [("c.ts", .file (some ""))]),
   ("gen.ts", .file (some "")),
   ("lib", .folder [(".d.ts", .file (some "")), ("e.tsx", .file none), ("f.d.ts", .file (some "")),
     ("gen.ts", .folder [("g.ts", .file (some ""))])])]

def distProject : Disk where
  top := .folder [("dist", .folder distEntries)]
  here := []

def distSettings : Settings := { Settings.default with ignoreDirs := ["dist", "gen.ts"] }

def distFound : List Path := [⟨"/dist/b.jsx"⟩, ⟨"/dist/gen.ts"⟩, ⟨"/dist/lib/e.tsx"⟩]

theorem sources_distProject : sources distSettings distProject ⟨"/dist"⟩ = distFound := by
  have hentry : distProject.entry? ⟨"/dist"⟩ = some (.folder distEntries) := by rfl
  have hwalk : ((walk distSettings.ignoreDirs (rulesAbove distProject ⟨"/dist"⟩)
      (.folder distEntries)).map fun names =>
        (⟨"/dist"⟩ : Path).join ("/".intercalate names)).filter isSource = distFound := by
    decide +kernel
  rw [sources, hentry]
  simp only [hwalk]
  exact List.mergeSort_of_pairwise (by decide +kernel)

theorem listing_sources_distProject :
    let listing := Listing distSettings.ignoreDirs (.folder distEntries) ⟨"/dist"⟩
    listing ["ts", "mts", "cts", "tsx", "js", "jsx", "mjs", "cjs"] distFound ∧
      listing ["tsx", "jsx"] [⟨"/dist/b.jsx"⟩, ⟨"/dist/lib/e.tsx"⟩] ∧
      listing ["ts", "tsx", "mts", "cts"] [⟨"/dist/gen.ts"⟩, ⟨"/dist/lib/e.tsx"⟩] := by
  have hnames : distProject.locate ⟨"/dist"⟩ = .ok ["dist"] := by rfl
  have hcomponents : distFound.filter isComponentFile = [⟨"/dist/b.jsx"⟩, ⟨"/dist/lib/e.tsx"⟩] := by
    decide +kernel
  have htyped : distFound.filter isTypedFile = [⟨"/dist/gen.ts"⟩, ⟨"/dist/lib/e.tsx"⟩] := by
    decide +kernel
  rw [← sources_distProject] at hcomponents htyped ⊢
  rw [← hcomponents, ← htyped]
  exact listing_sources (by decide +kernel) (by decide) hnames rfl (by decide +kernel)
    (by decide +kernel)

end QualityGate.Discovery
