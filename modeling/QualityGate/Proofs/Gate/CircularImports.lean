import QualityGate.Proofs.Findings.Project
import QualityGate.Proofs.Gate.Sources
import QualityGate.Proofs.Graph.BreadthFirst
import QualityGate.Proofs.Graph.Cycles
import QualityGate.Proofs.Graph.OfFiles

/-!
The two searches for circular imports in one report. The typed files have a smaller graph than all
parsed ones, so a file on a cycle of the one lies on a cycle of the other; and a cycle of typed
files is a cycle of both.
-/
namespace QualityGate

open Syntax Violation Relation

/-- Whether a violation names a file, in whatever spelling. -/
def Violation.concerns (v : Violation) (p : Path) : Bool :=
  v.file.any fun text => Path.same ⟨text⟩ p

@[simp] theorem Violation.concerns_inFile (v : Violation) (q p : Path) :
    (v.inFile q).concerns p = q.same p := rfl

namespace Gate

variable {settings : Settings} {tables : Tables} {disk : Disk} {root : Path}

/-- Typed files are parsed files. -/
theorem edge_of_typed {a b : FileId} (h : (typedProgram settings disk root).graph.Edge a b) :
    (importGraph settings disk root).Edge a b :=
  Graph.Edge.ofFiles_mono (List.filter_subset_self _) h

/-- What a typed file imports, it imports among typed files as well. -/
theorem edge_typed {a b : FileId} (hr : root.isAbsolute = true)
    (h : (importGraph settings disk root).Edge a b)
    (ht : ∃ q, q.components = a ∧ isTypedFile q = true) :
    (typedProgram settings disk root).graph.Edge a b := by
  obtain ⟨file, hf, hi⟩ := Graph.edge_ofFiles.1 h
  obtain ⟨q, hq, ht⟩ := ht
  -- `q` may be the file in another spelling, so that it is typed has to be shown of the source.
  have htyped : isTypedFile file.path = true :=
    Discovery.isTypedFile_of_mem_sources hr (mem_sources_of_mem_files hf) ht (hi.1.trans hq.symm)
  exact Graph.edge_ofFiles.2 ⟨file, mem_typed.2 ⟨hf, htyped⟩, hi⟩

/-- Every file of a listed cycle of typed files reaches itself through typed files. -/
theorem transGen_typed (hr : root.isAbsolute = true) {cycle : List Path}
    (hc : cycle ∈ (importGraph settings disk root).cycles) (ht : ∀ p ∈ cycle, isTypedFile p = true)
    {p : Path} (hp : p ∈ cycle) :
    TransGen (typedProgram settings disk root).graph.Edge p.components p.components := by
  obtain ⟨first, rest, he, -, hchain⟩ := Graph.isCycle_of_mem hc
  have htyped : (ids cycle).IsChain (typedProgram settings disk root).graph.Edge := by
    refine hchain.imp_of_mem_imp fun a b ha _ hab => edge_typed hr hab ?_
    obtain ⟨q, hq, hqa⟩ := mem_ids.1 ha
    exact ⟨q, hqa, ht q hq⟩
  rw [he] at htyped
  exact Graph.transGen_self_of_isChain htyped (he ▸ mem_ids_of_mem hp)

/-- A file that is reported to lie on a cycle is a typed one through which a cycle of typed files
leads. -/
theorem exists_of_noCircularImports {v : Violation}
    (hv : v ∈ (analyze settings tables disk root).violations)
    (hr : v.rule = Rule.noCircularImports.id) :
    ∃ file ∈ (Sources.load settings disk root).typed, ∃ cycle,
      (typedProgram settings disk root).graph.cycleThrough file.path = some cycle ∧
        v.file = some file.path.text := by
  have hmem := (perm_noCircularImports settings tables disk root).mem_iff.1
    (List.mem_filter.2 ⟨hv, beq_iff_eq.2 hr⟩)
  obtain ⟨file, hf, hmem⟩ := List.mem_flatMap.1 hmem
  obtain ⟨w, hw, rfl⟩ := List.mem_map.1 hmem
  obtain ⟨cycle, hcycle, -⟩ := List.mem_map.1 hw
  exact ⟨file, hf, cycle, Option.mem_toList.1 hcycle, rfl⟩

/-- Every listed cycle of the import graph is reported. -/
theorem mem_of_mem_cycles {cycle : List Path}
    (hc : cycle ∈ (importGraph settings disk root).cycles) :
    Rule.circularDependency.breach ("Circular dependency detected: " ++ Graph.arrows root cycle) ∈
      (analyze settings tables disk root).violations := by
  have hmem :=
    (perm_circularDependency settings tables disk root).mem_iff.2 (List.mem_map_of_mem hc)
  exact (List.mem_filter.1 hmem).1

theorem exists_circularDependency {v : Violation}
    (hv : v ∈ (analyze settings tables disk root).violations)
    (hr : v.rule = Rule.noCircularImports.id) :
    ∃ w ∈ (analyze settings tables disk root).violations, w.rule = Rule.circularDependency.id := by
  obtain ⟨file, -, cycle, hcycle, -⟩ := exists_of_noCircularImports hv hr
  have htyped := Graph.cycleThrough_isSome_iff.1 (Option.isSome_of_eq_some hcycle)
  have hall : TransGen (importGraph settings disk root).Edge
      file.path.components file.path.components :=
    TransGen.mono (fun _ _ => edge_of_typed) _ _ htyped
  obtain ⟨listed, hl, -⟩ := Graph.exists_cycle_of_transGen hall
  exact ⟨_, mem_of_mem_cycles hl, rfl⟩

/-- What is said of one file was found in this file. -/
theorem filter_concerns_cycleBreach (program : Program) (files : List SourceFile) (p : Path) :
    (files.flatMap fun file => (program.cycleBreach file).map (·.inFile file.path)).filter
        (·.concerns p) =
      (files.filter (·.path.same p)).flatMap fun file =>
        (program.cycleBreach file).map (·.inFile file.path) := by
  induction files with
  | nil => rfl
  | cons file files ih =>
    rw [List.flatMap_cons, List.filter_append, ih, List.filter_map]
    by_cases hs : file.path.same p = true
    · simp [Function.comp_def, hs]
    · simp [Function.comp_def, hs]

/-- A file of a listed cycle of typed files is reported to lie on a cycle, and only once. -/
theorem length_noCircularImports_of_mem (tidy : disk.top.isTidy = true)
    (hr : root.isAbsolute = true) {cycle : List Path}
    (hc : cycle ∈ (importGraph settings disk root).cycles) (ht : ∀ p ∈ cycle, isTypedFile p = true)
    {p : Path} (hp : p ∈ cycle) :
    ((ofRule .noCircularImports (analyze settings tables disk root).violations).filter
      (·.concerns p)).length = 1 := by
  have hreach := transGen_typed hr hc ht hp
  obtain ⟨b, hb, -⟩ := TransGen.head'_iff.1 hreach
  obtain ⟨file, hf, hfile, -⟩ := Graph.edge_ofFiles.1 hb
  obtain ⟨found, hfound⟩ :=
    Option.isSome_iff_exists.1 (Graph.cycleThrough_isSome_iff.2 (hfile ▸ hreach))
  rw [((perm_noCircularImports settings tables disk root).filter _).length_eq,
    filter_concerns_cycleBreach, filter_same_eq_singleton (nodup_ids_typed tidy hr) hf hfile]
  simp [Program.cycleBreach, hfound]

/-- In every report the two checks for circular imports agree. Where a file is reported to lie on a
cycle, a cycle is reported; and of the reported cycles, which are those of the import graph, every
file is reported once to lie on a cycle if all of them are typed. -/
theorem circular_checks_agree {dir : Path} {report : Report} (tidy : disk.top.isTidy = true)
    (ran : run disk dir = .ok report) :
    ((∃ v ∈ report.violations, v.rule = Rule.noCircularImports.id) →
        ∃ v ∈ report.violations, v.rule = Rule.circularDependency.id) ∧
      ∃ settings root, Settings.load disk dir = .ok settings ∧ disk.canonical? dir = some root ∧
        (ofRule .circularDependency report.violations).Perm
          (Graph.cycleBreaches root (importGraph settings disk root)) ∧
        ∀ cycle ∈ (importGraph settings disk root).cycles, (∀ p ∈ cycle, isTypedFile p = true) →
          ∀ p ∈ cycle,
            ((ofRule .noCircularImports report.violations).filter (·.concerns p)).length = 1 := by
  obtain ⟨settings, root, hs, hroot, hr, rfl⟩ := exists_of_run ran
  refine ⟨fun ⟨v, hv, hrule⟩ => exists_circularDependency hv hrule, settings, root, hs,
    hroot, ?_, ?_⟩
  · exact perm_circularDependency settings .default disk root
  · exact fun cycle hc ht p hp => length_noCircularImports_of_mem tidy hr hc ht hp

def pair : Disk where
  top := .folder [("p", .folder
    [("a.ts", .file (some "import './b'")), ("b.ts", .file (some "import './a'"))])]
  here := []

theorem sources_pair : Discovery.sources .default pair ⟨"/p"⟩ = [⟨"/p/a.ts"⟩, ⟨"/p/b.ts"⟩] := by
  have hentry : pair.entry? ⟨"/p"⟩ = some (.folder
    [("a.ts", .file (some "import './b'")), ("b.ts", .file (some "import './a'"))]) := by rfl
  rw [Discovery.sources, hentry]
  exact List.mergeSort_of_pairwise (by decide +kernel)

theorem cycles_pair :
    (importGraph .default pair ⟨"/p"⟩).cycles = [[⟨"/p/a.ts"⟩, ⟨"/p/b.ts"⟩, ⟨"/p/a.ts"⟩]] := by
  rw [importGraph, Sources.load, sources_pair]
  decide +kernel

theorem run_pair : run pair ⟨"/p"⟩ = .ok (analyze .default .default pair ⟨"/p"⟩) :=
  run_eq (by rfl) (by decide) (by decide)

theorem circular_checks_agree_pair :
    ∃ report, run pair ⟨"/p"⟩ = .ok report ∧
      ((ofRule .noCircularImports report.violations).filter (·.concerns ⟨"/p/b.ts"⟩)).length =
        1 := by
  obtain ⟨-, settings, root, hs, hroot, -, hall⟩ :=
    @circular_checks_agree pair ⟨"/p"⟩ _ (by decide) run_pair
  obtain rfl : Settings.default = settings := Except.ok.inj hs
  obtain rfl : (⟨"/p"⟩ : Path) = root := Option.some.inj hroot
  rw [cycles_pair] at hall
  exact ⟨_, run_pair, hall _ List.mem_cons_self (by decide +kernel) _ (by simp)⟩

/-- A violation names a typed file, and the cycle through it takes the last import of a reported
one. -/
def SharesReported (settings : Settings) (disk : Disk) (root : Path) (report : Report)
    (v : Violation) : Prop :=
  ∃ file ∈ (Sources.load settings disk root).typed, v.file = some file.path.text ∧
    ∃ walk, (typedProgram settings disk root).graph.cycleThrough file.path = some walk ∧
      ∃ cycle ∈ (importGraph settings disk root).cycles, Graph.TakesLast cycle (ids walk) ∧
        Rule.circularDependency.breach ("Circular dependency detected: " ++
          Graph.arrows root cycle) ∈
          report.violations

theorem sharesReported_of_noCircularImports {v : Violation}
    (hv : v ∈ (analyze settings tables disk root).violations)
    (hr : v.rule = Rule.noCircularImports.id) :
    SharesReported settings disk root (analyze settings tables disk root) v := by
  obtain ⟨file, hf, walk, hw, hv⟩ := exists_of_noCircularImports hv hr
  obtain ⟨inner, hids, hchain⟩ := Graph.cycleThrough_walk hw
  have hall : (ids walk).IsChain (importGraph settings disk root).Edge :=
    hchain.imp fun _ _ => edge_of_typed
  rw [hids] at hall
  obtain ⟨cycle, hc, htakes, -⟩ := Graph.exists_takesLast hall
  exact ⟨file, hf, hv, walk, hw, cycle, hc, hids ▸ htakes, mem_of_mem_cycles hc⟩

/-- The cycle through a file takes the last import of a listed cycle, whose files all lie on cycles
with it; so without these imports no file is left on a cycle, and a file that a report puts on a
cycle shares an import with a cycle that the report names. -/
theorem cycleThrough_takesLast_of_listed :
    (∀ (g : Graph) (p : Path) (walk : List Path), g.cycleThrough p = some walk →
      ∃ cycle ∈ g.cycles, Graph.TakesLast cycle (ids walk) ∧
        ∀ u ∈ ids cycle, TransGen g.Edge p.components u ∧ TransGen g.Edge u p.components) ∧
    (∀ (g : Graph) (a : FileId), ¬ TransGen (g.OpenEdge g.cycles) a a) ∧
    ∀ (disk : Disk) (dir : Path) (report : Report), run disk dir = .ok report →
      ∃ settings root, Settings.load disk dir = .ok settings ∧ disk.canonical? dir = some root ∧
        ∀ v ∈ report.violations, v.rule = Rule.noCircularImports.id →
          SharesReported settings disk root report v := by
  refine ⟨fun g p walk h => ?_, fun g a => (g.settled a).not_transGen,
    fun disk dir report ran => ?_⟩
  · obtain ⟨inner, hids, hchain⟩ := Graph.cycleThrough_walk h
    rw [hids] at hchain ⊢
    exact Graph.exists_takesLast hchain
  · obtain ⟨settings, root, hs, hroot, -, rfl⟩ := exists_of_run ran
    exact ⟨settings, root, hs, hroot, fun v => sharesReported_of_noCircularImports⟩

/-- Both `a` and `c` import `b`, which imports `a`, and `a` imports `c`. -/
def sharedTail : Graph :=
  (((Graph.empty.addEdge ⟨"a"⟩ ⟨"b"⟩).addEdge ⟨"a"⟩ ⟨"c"⟩).addEdge ⟨"b"⟩ ⟨"a"⟩).addEdge ⟨"c"⟩ ⟨"b"⟩

/-- The search meets `b` before `c`, so `c`, which lies on the cycle through `b` and `a`, is not
listed. -/
theorem sharedTail_not_listed :
    sharedTail.cycleThrough ⟨"c"⟩ = some [⟨"c"⟩, ⟨"b"⟩, ⟨"a"⟩, ⟨"c"⟩] ∧
      ¬ ∃ cycle ∈ sharedTail.cycles, Path.components ⟨"c"⟩ ∈ ids cycle := by
  decide

/-- That cycle takes the import of `a` by `b`, the last one of the cycle that is listed. -/
theorem sharedTail_takesLast : ∃ cycle ∈ sharedTail.cycles,
    Graph.TakesLast cycle (ids [⟨"c"⟩, ⟨"b"⟩, ⟨"a"⟩, ⟨"c"⟩]) := by
  have hwalk : sharedTail.cycleThrough ⟨"c"⟩ = some [⟨"c"⟩, ⟨"b"⟩, ⟨"a"⟩, ⟨"c"⟩] := by decide
  obtain ⟨cycle, hc, htakes, -⟩ := cycleThrough_takesLast_of_listed.1 sharedTail ⟨"c"⟩ _ hwalk
  exact ⟨cycle, hc, htakes⟩

end Gate
end QualityGate
