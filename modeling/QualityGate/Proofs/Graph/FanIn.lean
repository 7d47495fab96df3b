import QualityGate.Proofs.Findings.Project
import QualityGate.Proofs.Graph.OfFiles
import Mathlib.Algebra.GroupWithZero.Nat
import Mathlib.Data.Finset.Card
import Mathlib.Data.List.Nodup
import Mathlib.Data.List.Sort

/-!
How many files import a file. The rows of a graph and the imports in each of them stand in order, so
an import is there once, whatever ways a file has to name what it imports. The counts of importing
files count the imports from the other end and have the same sum.
-/
namespace QualityGate.Graph

open Syntax Violation

theorem map_fst_update (change : List Path → List Path) (p : Path)
    (rows : List (Path × List Path)) :
    (update change p rows).map (·.1) = insertPath p (rows.map (·.1)) := by
  induction rows with
  | nil => rfl
  | cons row rows ih =>
    rw [update, List.map_cons, insertPath]
    split_ifs
    · rfl
    · rfl
    · rw [List.map_cons, ih]

theorem map_fst_count (p : Path) (counts : List (Path × ℕ)) :
    (count p counts).map (·.1) = insertPath p (counts.map (·.1)) := by
  induction counts with
  | nil => rfl
  | cons e counts ih =>
    rw [count, List.map_cons, insertPath]
    split_ifs
    · rfl
    · rfl
    · rw [List.map_cons, ih]

/-- What holds of all lists of imports is kept when one of them changes. -/
theorem forall_imports_update {P : List Path → Prop} {change : List Path → List Path} {p : Path}
    {rows : List (Path × List Path)} (hnil : P []) (hchange : ∀ ts, P ts → P (change ts))
    (h : ∀ row ∈ rows, P row.2) : ∀ row ∈ update change p rows, P row.2 := by
  induction rows with
  | nil => exact List.forall_mem_singleton.2 (hchange [] hnil)
  | cons row rows ih =>
    obtain ⟨hrow, hrows⟩ := List.forall_mem_cons.1 h
    rw [update]
    split_ifs
    · exact List.forall_mem_cons.2 ⟨hchange _ hrow, hrows⟩
    · exact List.forall_mem_cons.2 ⟨hchange [] hnil, h⟩
    · exact List.forall_mem_cons.2 ⟨hrow, ih hrows⟩

/-- Rows and the imports in them stand in the order of paths. -/
structure Tidy (g : Graph) : Prop where
  files : Ordered g.rows
  imports : ∀ row ∈ g.rows, row.2.Pairwise fun p q => p.before q = true

variable {g : Graph}

theorem tidy_empty : Tidy empty := ⟨.nil, List.forall_mem_nil _⟩

theorem Tidy.addFile (h : Tidy g) (p : Path) : Tidy (g.addFile p) :=
  ⟨ordered_addFile h.files p, forall_imports_update .nil (fun _ => id) h.imports⟩

theorem Tidy.addEdge (h : Tidy g) (source target : Path) : Tidy (g.addEdge source target) :=
  ⟨ordered_addEdge h.files source target,
    forall_imports_update .nil (fun _ => pairwise_insertPath target) h.imports⟩

theorem Tidy.addEdges (h : Tidy g) (source : Path) (targets : List Path) :
    Tidy (targets.foldl (fun g target => g.addEdge source target) g) := by
  induction targets generalizing g with
  | nil => exact h
  | cons t targets ih => exact ih (h.addEdge source t)

variable {disk : Disk} {resolver : Resolver} {files : List SourceFile}

theorem Tidy.addSources (h : Tidy g) : Tidy (files.foldl (addSource disk resolver) g) := by
  induction files generalizing g with
  | nil => exact h
  | cons file files ih => exact ih ((h.addFile _).addEdges _ _)

theorem tidy_ofFiles : Tidy (ofFiles disk resolver files) := tidy_empty.addSources

theorem mem_ids_addEdges {source : Path} {targets : List Path} {a : FileId}
    (h : source.components ∈ ids g.files) :
    a ∈ ids (targets.foldl (fun g target => g.addEdge source target) g).files ↔
      a ∈ ids g.files := by
  induction targets generalizing g with
  | nil => rfl
  | cons t targets ih =>
    have hstep (b : FileId) : b ∈ ids (g.addEdge source t).files ↔ b ∈ ids g.files := by
      rw [Graph.files, addEdge, map_fst_update, mem_ids_insertPath]
      exact or_iff_right_of_imp fun hb => hb ▸ h
    rw [List.foldl_cons, ih ((hstep _).2 h), hstep]

theorem mem_ids_addSource {file : SourceFile} {a : FileId} :
    a ∈ ids (addSource disk resolver g file).files ↔
      a = file.path.components ∨ a ∈ ids g.files := by
  have hfile (b : FileId) : b ∈ ids (g.addFile file.path).files ↔
      b = file.path.components ∨ b ∈ ids g.files := by
    rw [Graph.files, addFile, map_fst_update, mem_ids_insertPath]
    rfl
  rw [addSource, mem_ids_addEdges ((hfile _).2 (.inl rfl)), hfile]

/-- The graph has just the parsed files. -/
theorem mem_ids_ofFiles {a : FileId} :
    a ∈ ids (ofFiles disk resolver files).files ↔ ∃ file ∈ files, file.path.components = a := by
  suffices ∀ g : Graph, a ∈ ids (files.foldl (addSource disk resolver) g).files ↔
      (∃ file ∈ files, file.path.components = a) ∨ a ∈ ids g.files from
    (this empty).trans (or_iff_left List.not_mem_nil)
  induction files with
  | nil => simp
  | cons file files ih =>
    intro g
    rw [List.foldl_cons, ih, mem_ids_addSource, List.exists_mem_cons_iff,
      eq_comm (a := a), or_assoc]
    exact or_left_comm

def pairs (g : Graph) : List (FileId × FileId) :=
  g.rows.flatMap fun row => row.2.map fun target => (row.1.components, target.components)

theorem lookup_of_mem {rows : List (Path × List Path)} (h : Ordered rows) {row : Path × List Path}
    (hrow : row ∈ rows) : lookup rows row.1.components = row.2 := by
  induction rows with
  | nil => exact absurd hrow List.not_mem_nil
  | cons r rows ih =>
    obtain ⟨hfirst, hrows⟩ := List.pairwise_cons.1 h
    rw [lookup_cons]
    rcases List.mem_cons.1 hrow with rfl | hrow
    · exact if_pos rfl
    · rw [if_neg (Path.ne_of_before (hfirst row hrow)), ih hrows hrow]

theorem mem_pairs (h : Ordered g.rows) {a b : FileId} : (a, b) ∈ pairs g ↔ g.Edge a b := by
  simp only [pairs, List.mem_flatMap, List.mem_map, Prod.mk.injEq]
  constructor
  · rintro ⟨row, hrow, target, htarget, rfl, rfl⟩
    rw [Edge, importsOf_eq, lookup_of_mem h hrow]
    exact mem_ids_of_mem htarget
  · intro he
    rcases importsOf_eq_nil_or_row (g := g) a with hnone | ⟨row, hrow, hsource, himports⟩
    · simp [Edge, hnone] at he
    · rw [Edge, himports] at he
      obtain ⟨target, htarget, hb⟩ := mem_ids.1 he
      exact ⟨row, hrow, target, htarget, hsource, hb⟩

/-- Every import is there once. -/
theorem nodup_pairs (h : Tidy g) : (pairs g).Nodup := by
  rw [pairs, List.nodup_flatMap]
  constructor
  · intro row hrow
    refine List.pairwise_map.2 ((h.imports row hrow).imp fun hb he => ?_)
    exact Path.ne_of_before hb (Prod.mk.inj he).2
  · refine h.files.imp fun {r s} hb e hr hs => ?_
    obtain ⟨_, -, rfl⟩ := List.mem_map.1 hr
    obtain ⟨_, -, he⟩ := List.mem_map.1 hs
    exact Path.ne_of_before hb (Prod.mk.inj he).1.symm

theorem length_pairs (g : Graph) : (pairs g).length = g.edgeCount := by
  simp [pairs, edgeCount, List.length_flatMap]

theorem map_snd_pairs (g : Graph) : (pairs g).map Prod.snd = ids (g.rows.flatMap (·.2)) := by
  simp [pairs, ids, List.map_flatMap, Function.comp_def]

/-- How often a list of counts has counted a path. -/
def number (counts : List (Path × ℕ)) (p : Path) : ℕ := ((counts.filter (·.1.same p)).map (·.2)).sum

theorem number_cons (e : Path × ℕ) (counts : List (Path × ℕ)) (q : Path) :
    number (e :: counts) q = (if e.1.same q then e.2 else 0) + number counts q := by
  by_cases he : e.1.same q = true <;> simp [number, he]

theorem number_count (p q : Path) (counts : List (Path × ℕ)) :
    number (count p counts) q = number counts q + if p.same q then 1 else 0 := by
  induction counts with
  | nil => by_cases hq : p.same q = true <;> simp [number, count, hq]
  | cons e counts ih =>
    rw [count]
    by_cases hsame : p.same e.1 = true
    · have hkey : e.1.same q = p.same q := by
        rw [Path.same, Path.same, Path.same_iff.1 hsame]
      rw [if_pos hsame, number_cons, number_cons, hkey]
      cases p.same q <;> simp
      omega
    by_cases hbefore : p.before e.1 = true
    · rw [if_neg hsame, if_pos hbefore, number_cons, Nat.add_comm]
    · rw [if_neg hsame, if_neg hbefore, number_cons, number_cons, ih, Nat.add_assoc]

theorem sum_count (p : Path) (counts : List (Path × ℕ)) :
    ((count p counts).map (·.2)).sum = (counts.map (·.2)).sum + 1 := by
  induction counts with
  | nil => rfl
  | cons e counts ih =>
    rw [count]
    split_ifs
    · simp only [List.map_cons, List.sum_cons]
      omega
    · rw [List.map_cons, List.sum_cons, Nat.add_comm]
    · rw [List.map_cons, List.map_cons, List.sum_cons, List.sum_cons, ih, Nat.add_assoc]

/-- Counting one path after the other. -/
theorem foldl_count (ps : List Path) (counts : List (Path × ℕ)) :
    let all := ps.foldl (fun counts p => count p counts) counts
    all.map (·.1) = ps.foldl (fun kept p => insertPath p kept) (counts.map (·.1)) ∧
      (∀ q : Path, number all q = (ids ps).count q.components + number counts q) ∧
      (all.map (·.2)).sum = ps.length + (counts.map (·.2)).sum := by
  induction ps generalizing counts with
  | nil => simp
  | cons p ps ih =>
    obtain ⟨hkeys, hnumber, hsum⟩ := ih (count p counts)
    refine ⟨?_, fun q => ?_, ?_⟩
    · rw [List.foldl_cons, hkeys, map_fst_count, List.foldl_cons]
    · rw [List.foldl_cons, hnumber, number_count, ids_cons, List.count_cons, Path.same,
        Nat.add_comm (number counts q), Nat.add_assoc]
    · rw [List.foldl_cons, hsum, sum_count, List.length_cons]
      omega

theorem map_fst_fanIn (g : Graph) : g.fanIn.map (·.1) = inOrder (g.rows.flatMap (·.2)) :=
  (foldl_count _ []).1

theorem sum_fanIn (g : Graph) : (g.fanIn.map (·.2)).sum = g.edgeCount :=
  (foldl_count _ []).2.2

theorem snd_of_mem_fanIn {e : Path × ℕ} (h : e ∈ g.fanIn) :
    e.2 = (ids (g.rows.flatMap (·.2))).count e.1.components := by
  have hdistinct : (ids (g.fanIn.map (·.1))).Nodup := map_fst_fanIn g ▸ nodup_ids_inOrder _
  have hnumber : number g.fanIn e.1 = e.2 := by
    rw [number, filter_same_eq_singleton hdistinct h rfl]
    simp
  rw [← hnumber]
  exact (foldl_count _ []).2.1 e.1

/-- The imports of files, as their statements lead to existing files. -/
def links (disk : Disk) (resolver : Resolver) (files : List SourceFile) :
    Finset (FileId × FileId) :=
  (files.flatMap fun file => (Import.ofFile file).filterMap fun i =>
    (resolver.resolve? disk i.source file.path).map fun target =>
      (file.path.components, target.components)).toFinset

/-- The files that import a file. -/
def importers (all : Finset (FileId × FileId)) (b : FileId) : Finset FileId :=
  (all.filter (·.2 = b)).image Prod.fst

theorem mem_links {a b : FileId} : (a, b) ∈ links disk resolver files ↔
    ∃ file ∈ files, Imports disk resolver file a b := by
  simp only [links, Imports, targets, List.mem_toFinset, List.mem_flatMap,
    List.mem_filterMap, mem_ids, Option.map_eq_some_iff, Prod.mk.injEq]
  constructor
  · rintro ⟨file, hfile, i, hi, target, htarget, ha, hb⟩
    exact ⟨file, hfile, ha, target, ⟨i, hi, htarget⟩, hb⟩
  · rintro ⟨file, hfile, ha, target, ⟨i, hi, htarget⟩, hb⟩
    exact ⟨file, hfile, i, hi, target, htarget, ha, hb⟩

theorem toFinset_pairs :
    (pairs (ofFiles disk resolver files)).toFinset = links disk resolver files := by
  ext ⟨a, b⟩
  rw [List.mem_toFinset, mem_pairs tidy_ofFiles.files, edge_ofFiles, mem_links]

theorem card_links :
    (links disk resolver files).card = (ofFiles disk resolver files).edgeCount := by
  rw [← toFinset_pairs, List.toFinset_card_of_nodup (nodup_pairs tidy_ofFiles), length_pairs]

/-- An import counts one for the importing file at the one end, and one for the imported file at the
other. -/
theorem card_importers (b : FileId) : (importers (links disk resolver files) b).card =
    (ids ((ofFiles disk resolver files).rows.flatMap (·.2))).count b := by
  have hsource :
      Set.InjOn Prod.fst (SetLike.coe ((links disk resolver files).filter (·.2 = b))) := by
    rintro ⟨a, _⟩ ha ⟨c, _⟩ hc rfl
    rw [Finset.mem_coe, Finset.mem_filter] at ha hc
    exact congrArg (Prod.mk a) (ha.2.trans hc.2.symm)
  have hfilter : (links disk resolver files).filter (·.2 = b) =
      ((pairs (ofFiles disk resolver files)).filter (·.2 == b)).toFinset := by
    rw [← toFinset_pairs]
    ext
    simp
  rw [importers, Finset.card_image_of_injOn hsource, hfilter,
    List.toFinset_card_of_nodup ((nodup_pairs tidy_ofFiles).filter _), ← map_snd_pairs, List.count,
    List.countP_map, List.countP_eq_length_filter]
  rfl

def crowd (target : Path) (n : ℕ) : Violation :=
  (Violation.warning .duplicateImport ("Module \"" ++ target.fileName?.getD ""
    ++ "\" is imported in "
    ++ toString n ++ " files. Consider re-exporting.")).inFile target

/-- The reports are on the files that more than `limit` files import, in the order of paths. -/
def ReportsCrowds (limit : ℕ) (all : Finset (FileId × FileId)) (vs : List Violation) : Prop :=
  ∃ targets : List Path, (targets.Pairwise fun p q => p.before q = true) ∧
    (∀ b, b ∈ ids targets ↔ limit < (importers all b).card) ∧
    vs = targets.map fun p => crowd p (importers all p.components).card

theorem reportsCrowds_fanInBreaches (limit : ℕ) : ReportsCrowds limit (links disk resolver files)
    (fanInBreaches limit (ofFiles disk resolver files)) := by
  set g := ofFiles disk resolver files with hg
  have hnumber (e : Path × ℕ) (he : e ∈ g.fanIn) :
      e.2 = (importers (links disk resolver files) e.1.components).card := by
    rw [snd_of_mem_fanIn he, card_importers]
  refine ⟨(g.fanIn.filter fun e => e.2 > limit).map (·.1), ?_, fun b => ?_, ?_⟩
  · have hkept : ((g.fanIn.filter fun e => e.2 > limit).map (·.1)).Sublist (g.fanIn.map (·.1)) :=
      List.filter_sublist.map _
    rw [map_fst_fanIn] at hkept
    exact (foldl_insertPath_spec _ [] .nil).1.sublist hkept
  · simp only [mem_ids, List.mem_map, List.mem_filter, decide_eq_true_eq]
    constructor
    · rintro ⟨_, ⟨e, ⟨he, hlimit⟩, rfl⟩, rfl⟩
      exact hnumber e he ▸ hlimit
    · intro hlimit
      have hmem : b ∈ ids (g.fanIn.map (·.1)) := by
        rw [map_fst_fanIn, mem_ids_inOrder, ← List.count_pos_iff, ← card_importers]
        exact Nat.zero_lt_of_lt hlimit
      obtain ⟨_, hp, rfl⟩ := mem_ids.1 hmem
      obtain ⟨e, he, rfl⟩ := List.mem_map.1 hp
      exact ⟨_, ⟨e, ⟨he, (hnumber e he).symm ▸ hlimit⟩, rfl⟩, rfl⟩
  · rw [fanInBreaches, List.map_map]
    refine List.map_congr_left fun e he => ?_
    rw [Function.comp_apply, ← hnumber e (List.mem_of_mem_filter he)]
    rfl

variable {settings : Settings} {root : Path}

theorem ofRule_duplicateImport_check :
    ofRule .duplicateImport (check disk settings resolver root files).1 =
      fanInBreaches settings.thresholds.maxImportFanIn (ofFiles disk resolver files) := by
  simp only [check_eq, otherBreaches, ofRule_append]
  rw [ofRule_eq_nil (findings_cycleBreaches _ _) (by decide),
    ofRule_eq_nil (findings_chainBreach _ _) (by decide),
    ofRule_eq_nil (findings_unusedPrimitives _ _ _ _) (by decide),
    ofRule_eq_nil (findings_overwritten _ _) (by decide),
    ofRule_eq_self (findings_fanInBreaches _ _)]
  rfl

def lastName (a : FileId) : Option String :=
  match a.getLast? with
  | some (.name s) => some s
  | _ => none

/-- Message and file of a report, in whatever spelling. -/
def shown (v : Violation) : String × Option FileId :=
  (v.message, v.file.map fun text => Path.components ⟨text⟩)

theorem pairwise_ids {ps : List Path} (h : ps.Pairwise fun p q => p.before q = true) :
    (ids ps).Pairwise fun a b => Path.ltComponents a b = true :=
  List.pairwise_map.2 h

/-- Different files in order are known by which ones they are. -/
theorem ids_eq_of_mem_iff {ps qs : List Path} (hp : ps.Pairwise fun p q => p.before q = true)
    (hq : qs.Pairwise fun p q => p.before q = true) (h : ∀ a, a ∈ ids ps ↔ a ∈ ids qs) :
    ids ps = ids qs := by
  have : Std.Irrefl fun a b : FileId => Path.ltComponents a b = true :=
    ⟨fun a => by simp [Path.ltComponents_irrefl]⟩
  have : Std.Antisymm fun a b : FileId => Path.ltComponents a b = true :=
    ⟨fun a b hab hba => by simpa [Path.ltComponents_irrefl] using Path.ltComponents_trans hab hba⟩
  exact (pairwise_ids hp).eq_of_mem_iff (pairwise_ids hq) h

/-- The imports decide what is reported. -/
theorem ReportsCrowds.shown_eq {limit : ℕ} {all : Finset (FileId × FileId)} {vs ws : List Violation}
    (h : ReportsCrowds limit all vs) (k : ReportsCrowds limit all ws) :
    vs.map shown = ws.map shown := by
  obtain ⟨ps, hps, hmem, rfl⟩ := h
  obtain ⟨qs, hqs, hmem', rfl⟩ := k
  have hids : ids ps = ids qs := ids_eq_of_mem_iff hps hqs fun a => (hmem a).trans (hmem' a).symm
  have hshown (rs : List Path) :
      (rs.map fun p => crowd p (importers all p.components).card).map shown =
      (ids rs).map fun a => ("Module \"" ++ (lastName a).getD "" ++ "\" is imported in "
        ++ toString (importers all a).card ++ " files. Consider re-exporting.", some a) := by
    rw [List.map_map, ids, List.map_map]
    rfl
  rw [hshown, hshown, hids]

/-- The graph of parsed files has each of them once, and each import of a file by a file once. The
imported files that more files import than the limit are reported, each once, with the number of the
importing files; these numbers add up to the imports. Files with the same imports, in whatever order
and however often they import what they do, have the same counts and, up to spelling, the same
reports. -/
theorem imports_counted_once (disk : Disk) (settings : Settings) (resolver : Resolver) (root : Path)
    (files : List SourceFile) :
    ((ids (ofFiles disk resolver files).files).Nodup ∧
        ∀ a, a ∈ ids (ofFiles disk resolver files).files ↔
          ∃ file ∈ files, file.path.components = a) ∧
      (ofFiles disk resolver files).edgeCount = (links disk resolver files).card ∧
      ReportsCrowds settings.thresholds.maxImportFanIn (links disk resolver files)
        (ofRule .duplicateImport (check disk settings resolver root files).1) ∧
      ((ofFiles disk resolver files).fanIn.map (·.2)).sum =
        (ofFiles disk resolver files).edgeCount ∧
      ∀ (other : Resolver) (more : List SourceFile),
        (∀ a, a ∈ more.map (·.path.components) ↔ a ∈ files.map (·.path.components)) →
        links disk other more = links disk resolver files →
        ids (ofFiles disk other more).files = ids (ofFiles disk resolver files).files ∧
          (ofFiles disk other more).edgeCount = (ofFiles disk resolver files).edgeCount ∧
          (ofRule .duplicateImport (check disk settings other root more).1).map shown =
            (ofRule .duplicateImport (check disk settings resolver root files).1).map shown := by
  have hreports (resolver : Resolver) (files : List SourceFile) :
      ReportsCrowds settings.thresholds.maxImportFanIn (links disk resolver files)
        (ofRule .duplicateImport (check disk settings resolver root files).1) := by
    rw [ofRule_duplicateImport_check]
    exact reportsCrowds_fanInBreaches _
  have hfiles (resolver : Resolver) (files : List SourceFile) :
      (ofFiles disk resolver files).files.Pairwise fun p q => p.before q = true :=
    List.pairwise_map.2 tidy_ofFiles.files
  refine ⟨⟨List.pairwise_map.2 ((hfiles _ _).imp Path.ne_of_before), fun a => mem_ids_ofFiles⟩,
    card_links.symm, hreports _ _, sum_fanIn _, fun other more hsame hlinks => ⟨?_, ?_, ?_⟩⟩
  · refine ids_eq_of_mem_iff (hfiles _ _) (hfiles _ _) fun a => ?_
    rw [mem_ids_ofFiles, mem_ids_ofFiles, ← List.mem_map, ← List.mem_map, hsame]
  · rw [← card_links, ← card_links, hlinks]
  · exact (hlinks ▸ hreports other more).shown_eq (hreports resolver files)

def shelf : Disk where
  top := .folder [("p", .folder
    [("a.ts", .file (some "import './c'")), ("b.ts", .file (some "import './c'")),
      ("c.ts", .file (some ""))])]
  here := []

def parsed (texts : List (String × String)) : List SourceFile :=
  texts.filterMap fun (path, text) => (SourceFile.parse ⟨path⟩ text).toOption

def plainImports : List SourceFile :=
  parsed [("/p/a.ts", "import './c'"), ("/p/b.ts", "import './c'")]

/-- The same imports in another order, one of them twice and in another spelling. -/
def respelledImports : List SourceFile :=
  parsed [("/p/b.ts", "import './c.ts'; import '../p/./c'"), ("/p/a.ts", "import './c'")]

theorem imports_counted_once_respelled :
    (∀ a, a ∈ respelledImports.map (·.path.components) ↔ a ∈ plainImports.map (·.path.components)) ∧
      links shelf ⟨[]⟩ respelledImports = links shelf ⟨[]⟩ plainImports ∧
      (ofFiles shelf ⟨[]⟩ respelledImports).edgeCount =
        (ofFiles shelf ⟨[]⟩ plainImports).edgeCount ∧
      (ofFiles shelf ⟨[]⟩ plainImports).edgeCount = 2 := by
  have hpaths : respelledImports.map (·.path.components) =
      (plainImports.map (·.path.components)).reverse := by
    decide +kernel
  have hfiles (a : FileId) : a ∈ respelledImports.map (·.path.components) ↔
      a ∈ plainImports.map (·.path.components) := by
    rw [hpaths, List.mem_reverse]
  have hlinks : links shelf ⟨[]⟩ respelledImports = links shelf ⟨[]⟩ plainImports := by
    decide +kernel
  obtain ⟨-, -, -, -, hsame⟩ := imports_counted_once shelf .default ⟨[]⟩ ⟨"/p"⟩ plainImports
  exact ⟨hfiles, hlinks, (hsame ⟨[]⟩ respelledImports hfiles hlinks).2.1, by decide +kernel⟩

end QualityGate.Graph
