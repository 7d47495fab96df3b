import QualityGate.Graph.OfFiles
import QualityGate.Proofs.Graph.Walk

/-!
Graphs as they are built. Their files stand in order, and an import is added between two files
without any other change. The graph of parsed files has exactly their imports, so fewer files make a
smaller graph.
-/
namespace QualityGate.Graph

open Syntax

/-- The rows of a graph stand in the order of their files. -/
def Ordered (rows : List (Path × List Path)) : Prop :=
  rows.Pairwise fun r s => r.1.before s.1 = true

def lookup (rows : List (Path × List Path)) (a : FileId) : List Path :=
  ((rows.find? fun row => row.1.components == a).map (·.2)).getD []

theorem importsOf_eq (g : Graph) (a : FileId) : g.importsOf a = ids (lookup g.rows a) := rfl

@[simp] theorem lookup_nil (a : FileId) : lookup [] a = [] := rfl

theorem lookup_cons (row : Path × List Path) (rows : List (Path × List Path)) (a : FileId) :
    lookup (row :: rows) a = if row.1.components = a then row.2 else lookup rows a := by
  by_cases h : row.1.components = a <;> simp [lookup, h]

theorem lookup_eq_nil {rows : List (Path × List Path)} {a : FileId}
    (h : ∀ row ∈ rows, row.1.components ≠ a) : lookup rows a = [] := by
  induction rows with
  | nil => rfl
  | cons row rows ih =>
    rw [lookup_cons, if_neg (h row List.mem_cons_self)]
    exact ih fun r hr => h r (List.mem_cons_of_mem _ hr)

theorem mem_update {change : List Path → List Path} {p : Path} {rows : List (Path × List Path)}
    {row : Path × List Path} (h : row ∈ update change p rows) :
      row.1 = p ∨ ∃ r ∈ rows, row.1 = r.1 := by
  induction rows with
  | nil => exact .inl (by rw [List.mem_singleton.1 h])
  | cons r rows ih =>
    obtain ⟨q, targets⟩ := r
    simp only [update] at h
    split_ifs at h
    · rcases List.mem_cons.1 h with rfl | h
      · exact .inr ⟨_, List.mem_cons_self, rfl⟩
      · exact .inr ⟨row, List.mem_cons_of_mem _ h, rfl⟩
    · rcases List.mem_cons.1 h with rfl | h
      · exact .inl rfl
      · exact .inr ⟨row, h, rfl⟩
    · rcases List.mem_cons.1 h with rfl | h
      · exact .inr ⟨_, List.mem_cons_self, rfl⟩
      · exact (ih h).imp_right fun ⟨r, hr, he⟩ => ⟨r, List.mem_cons_of_mem _ hr, he⟩

theorem ordered_update (change : List Path → List Path) (p : Path) {rows : List (Path × List Path)}
    (h : Ordered rows) : Ordered (update change p rows) := by
  induction rows with
  | nil => exact List.pairwise_singleton _ _
  | cons r rows ih =>
    obtain ⟨q, targets⟩ := r
    obtain ⟨hq, hrows⟩ := List.pairwise_cons.1 h
    simp only [update]
    split_ifs with hs hb
    · exact List.pairwise_cons.2 ⟨hq, hrows⟩
    · refine List.pairwise_cons.2 ⟨fun row hr => ?_, h⟩
      rcases List.mem_cons.1 hr with rfl | hr
      · exact hb
      · exact Path.before_trans hb (hq row hr)
    · have hqp : q.before p = true := by
        rcases Path.ltComponents_total (fun he => hs (Path.same_iff.2 he)) with hl | hl
        · exact absurd hl hb
        · exact hl
      refine List.pairwise_cons.2 ⟨fun row hr => ?_, ih hrows⟩
      rcases mem_update hr with he | ⟨r, hr, he⟩
      · exact he ▸ hqp
      · exact he ▸ hq r hr

/-- Only the imports of the one file change. -/
theorem lookup_update (change : List Path → List Path) (p : Path) {rows : List (Path × List Path)}
    (h : Ordered rows) (a : FileId) :
    lookup (update change p rows) a =
      if p.components = a then change (lookup rows a) else lookup rows a := by
  induction rows with
  | nil => simp [update, lookup_cons]
  | cons r rows ih =>
    obtain ⟨q, targets⟩ := r
    obtain ⟨hq, hrows⟩ := List.pairwise_cons.1 h
    rw [update]
    by_cases hs : p.same q = true
    · have hpq : p.components = q.components := Path.same_iff.1 hs
      rw [if_pos hs, lookup_cons, lookup_cons, hpq]
      split_ifs <;> rfl
    by_cases hb : p.before q = true
    · have hnone : lookup ((q, targets) :: rows) p.components = [] := by
        refine lookup_eq_nil fun row hr => ?_
        rcases List.mem_cons.1 hr with rfl | hr
        · exact (Path.ne_of_before hb).symm
        · exact (Path.ne_of_before (Path.before_trans hb (hq row hr))).symm
      rw [if_neg hs, if_pos hb, lookup_cons]
      split_ifs with hpa
      · rw [← hpa, hnone]
      · rfl
    · have hqp : q.components ≠ p.components := fun he => hs (Path.same_iff.2 he.symm)
      rw [if_neg hs, if_neg hb, lookup_cons, lookup_cons, ih hrows]
      split_ifs with hqa hpa
      · exact absurd (hqa.trans hpa.symm) hqp
      all_goals rfl

variable {g : Graph}

theorem ordered_empty : Ordered empty.rows := .nil

theorem ordered_addFile (h : Ordered g.rows) (p : Path) : Ordered (g.addFile p).rows :=
  ordered_update _ _ h

theorem ordered_addEdge (h : Ordered g.rows) (source target : Path) :
    Ordered (g.addEdge source target).rows :=
  ordered_update _ _ h

theorem edge_addFile (h : Ordered g.rows) {p : Path} {a b : FileId} :
    (g.addFile p).Edge a b ↔ g.Edge a b := by
  rw [Edge, Edge, importsOf_eq, importsOf_eq, addFile, lookup_update _ _ h]
  simp

theorem edge_addEdge (h : Ordered g.rows) {source target : Path} {a b : FileId} :
    (g.addEdge source target).Edge a b ↔
      g.Edge a b ∨ (source.components = a ∧ target.components = b) := by
  rw [Edge, Edge, importsOf_eq, importsOf_eq, addEdge, lookup_update _ _ h]
  split_ifs with ha
  · rw [mem_ids_insertPath, eq_comm]
    tauto
  · tauto

theorem ordered_addEdges {source : Path} {targets : List Path} (h : Ordered g.rows) :
    Ordered (targets.foldl (fun g target => g.addEdge source target) g).rows := by
  induction targets generalizing g with
  | nil => exact h
  | cons t targets ih => exact ih (ordered_addEdge h _ _)

theorem edge_addEdges {source : Path} {targets : List Path} (h : Ordered g.rows) {a b : FileId} :
    (targets.foldl (fun g target => g.addEdge source target) g).Edge a b ↔
      g.Edge a b ∨ (source.components = a ∧ b ∈ ids targets) := by
  induction targets generalizing g with
  | nil => simp
  | cons t targets ih =>
    rw [List.foldl_cons, ih (ordered_addEdge h _ _), edge_addEdge h, ids_cons, List.mem_cons,
      eq_comm]
    tauto

/-- Of the two files of an import only the importing one has a row. -/
theorem mem_files_update {change : List Path → List Path} {p q : Path}
    {rows : List (Path × List Path)} (h : q ∈ (update change p rows).map (·.1)) :
    q ∈ rows.map (·.1) ∨ q = p := by
  obtain ⟨row, hrow, rfl⟩ := List.mem_map.1 h
  rcases mem_update hrow with he | ⟨r, hr, he⟩
  · exact .inr he
  · exact .inl (List.mem_map.2 ⟨r, hr, he.symm⟩)

theorem mem_files_addEdges {source q : Path} {targets : List Path}
    (h : q ∈ (targets.foldl (fun g target => g.addEdge source target) g).files) :
    q ∈ g.files ∨ q = source := by
  induction targets generalizing g with
  | nil => exact .inl h
  | cons t targets ih => exact (ih h).elim mem_files_update .inr

variable {disk : Disk} {resolver : Resolver}

/-- A parsed file imports what its import statements lead to. -/
def Imports (disk : Disk) (resolver : Resolver) (file : SourceFile) (a b : FileId) : Prop :=
  file.path.components = a ∧ b ∈ ids (targets disk resolver file)

theorem ordered_addSource {file : SourceFile} (h : Ordered g.rows) :
    Ordered (addSource disk resolver g file).rows :=
  ordered_addEdges (ordered_addFile h _)

theorem edge_addSource {file : SourceFile} (h : Ordered g.rows) {a b : FileId} :
    (addSource disk resolver g file).Edge a b ↔ g.Edge a b ∨ Imports disk resolver file a b := by
  rw [addSource, edge_addEdges (ordered_addFile h _), edge_addFile h, Imports]

theorem edge_addSources {files : List SourceFile} (h : Ordered g.rows) {a b : FileId} :
    (files.foldl (addSource disk resolver) g).Edge a b ↔
      g.Edge a b ∨ ∃ file ∈ files, Imports disk resolver file a b := by
  induction files generalizing g with
  | nil => simp
  | cons file files ih =>
    rw [List.foldl_cons, ih (ordered_addSource h), edge_addSource h]
    simp [or_assoc]

/-- The graph of parsed files has their imports and no others. -/
theorem edge_ofFiles {files : List SourceFile} {a b : FileId} :
    (ofFiles disk resolver files).Edge a b ↔ ∃ file ∈ files, Imports disk resolver file a b := by
  have hempty : ¬ empty.Edge a b := by simp [Edge, importsOf_eq, empty]
  rw [ofFiles, edge_addSources ordered_empty]
  simp [hempty]

theorem mem_files_addSource {file : SourceFile} {q : Path}
    (h : q ∈ (addSource disk resolver g file).files) : q ∈ g.files ∨ q = file.path :=
  (mem_files_addEdges h).elim mem_files_update .inr

/-- Only parsed files have a row in their graph. -/
theorem mem_files_addSources {files : List SourceFile} {q : Path}
    (h : q ∈ (files.foldl (addSource disk resolver) g).files) :
    q ∈ g.files ∨ ∃ file ∈ files, file.path = q := by
  induction files generalizing g with
  | nil => exact .inl h
  | cons file files ih =>
    rcases ih h with h | ⟨other, ho, he⟩
    · exact (mem_files_addSource h).imp_right fun he => ⟨file, List.mem_cons_self, he.symm⟩
    · exact .inr ⟨other, List.mem_cons_of_mem _ ho, he⟩

theorem mem_files_ofFiles {files : List SourceFile} {q : Path}
    (h : q ∈ (ofFiles disk resolver files).files) : ∃ file ∈ files, file.path = q :=
  (mem_files_addSources h).resolve_left List.not_mem_nil

theorem imports_eq_lookup (g : Graph) (p : Path) : g.imports p = lookup g.rows p.components := rfl

theorem mem_lookup_addEdge (h : Ordered g.rows) {source target q : Path} {a : FileId}
    (hq : q ∈ lookup (g.addEdge source target).rows a) :
    q ∈ lookup g.rows a ∨ (source.components = a ∧ q = target) := by
  rw [addEdge, lookup_update _ _ h] at hq
  split_ifs at hq with ha
  · exact (mem_of_mem_insertPath hq).symm.imp_right fun he => ⟨ha, he⟩
  · exact .inl hq

theorem mem_lookup_addEdges {source q : Path} {targets : List Path} (h : Ordered g.rows)
    {a : FileId}
    (hq : q ∈ lookup (targets.foldl (fun g target => g.addEdge source target) g).rows a) :
    q ∈ lookup g.rows a ∨ (source.components = a ∧ q ∈ targets) := by
  induction targets generalizing g with
  | nil => exact .inl hq
  | cons t targets ih =>
    rcases ih (ordered_addEdge h _ _) hq with hq | ⟨ha, hq⟩
    · exact (mem_lookup_addEdge h hq).imp_right fun ⟨ha, he⟩ => ⟨ha, he ▸ List.mem_cons_self⟩
    · exact .inr ⟨ha, List.mem_cons_of_mem _ hq⟩

theorem mem_lookup_addSource {file : SourceFile} {q : Path} (h : Ordered g.rows) {a : FileId}
    (hq : q ∈ lookup (addSource disk resolver g file).rows a) :
    q ∈ lookup g.rows a ∨ (file.path.components = a ∧ q ∈ targets disk resolver file) := by
  refine (mem_lookup_addEdges (ordered_addFile h _) hq).imp_left fun hq => ?_
  rw [addFile, lookup_update _ _ h] at hq
  simpa using hq

theorem mem_lookup_addSources {files : List SourceFile} {q : Path} (h : Ordered g.rows) {a : FileId}
    (hq : q ∈ lookup (files.foldl (addSource disk resolver) g).rows a) :
    q ∈ lookup g.rows a ∨
      ∃ file ∈ files, file.path.components = a ∧ q ∈ targets disk resolver file := by
  induction files generalizing g with
  | nil => exact .inl hq
  | cons file files ih =>
    rcases ih (ordered_addSource h) hq with hq | ⟨other, ho, hother⟩
    · exact (mem_lookup_addSource h hq).imp_right fun hfile => ⟨file, List.mem_cons_self, hfile⟩
    · exact .inr ⟨other, List.mem_cons_of_mem _ ho, hother⟩

/-- What a file imports, in the spelling of the graph, is found from one of its import
statements. -/
theorem exists_of_mem_imports {files : List SourceFile} {p q : Path}
    (h : q ∈ (ofFiles disk resolver files).imports p) :
    ∃ file ∈ files, file.path.components = p.components ∧
      ∃ i ∈ Import.ofFile file, resolver.resolve? disk i.source file.path = some q := by
  have hempty : lookup empty.rows p.components = [] := rfl
  rw [imports_eq_lookup, ofFiles] at h
  obtain ⟨file, hfile, hp, hq⟩ :=
    (mem_lookup_addSources ordered_empty h).resolve_left (by simp [hempty])
  exact ⟨file, hfile, hp, List.mem_filterMap.1 hq⟩

theorem Edge.ofFiles_mono {files more : List SourceFile} (h : files ⊆ more) {a b : FileId}
    (he : (ofFiles disk resolver files).Edge a b) : (ofFiles disk resolver more).Edge a b := by
  obtain ⟨file, hf, hi⟩ := edge_ofFiles.1 he
  exact edge_ofFiles.2 ⟨file, h hf, hi⟩

end QualityGate.Graph
