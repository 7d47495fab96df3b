import QualityGate.Gate
import QualityGate.Proofs.Findings.Components
import QualityGate.Proofs.Findings.Typed

/-!
What the gate finds in a project as a whole: the checks on imports find breaches of their own rules,
and the report holds, up to order, what the parts of the gate have found.
-/
namespace QualityGate

open Syntax Violation

namespace Graph

theorem findings_cycleBreaches (root : Path) (g : Graph) :
    Findings (· = .circularDependency) (cycleBreaches root g) :=
  .map fun _ _ => found_breach

theorem findings_chainBreach (limit depth : Nat) :
    Findings (· = .deepImportChain) (chainBreach limit depth) :=
  .ite (.singleton found_breach) .nil

variable (disk : Disk) (settings : Settings)

theorem findings_unusedPrimitives (s : Primitive.Surroundings) (files : List SourceFile) :
    Findings (· = .primitivesNotUsed) (unusedPrimitives disk settings s files) :=
  .ite (.singleton found_breach) .nil

theorem findings_overwritten (s : Primitive.Surroundings) (files : List SourceFile) :
    Findings (· = .primitivesOverwritten) (files.filterMap (Primitive.overwritten? s)) := by
  intro v hv
  obtain ⟨file, -, hf⟩ := List.mem_filterMap.1 hv
  unfold Primitive.overwritten? at hf
  split at hf
  · simp at hf
  · obtain rfl := Option.some.inj hf
    exact found_at.inFile _

theorem findings_fanInBreaches (limit : Nat) (g : Graph) :
    Findings (· = .duplicateImport) (fanInBreaches limit g) :=
  .map fun _ _ => found_breach.inFile _

def otherBreaches (g : Graph) (s : Primitive.Surroundings) (files : List SourceFile) :
    List Violation :=
  chainBreach settings.thresholds.maxImportDepth g.longestChain
    ++ unusedPrimitives disk settings s files
    ++ (files.filter fun f => !f.path.startsWith s.dir).filterMap (Primitive.overwritten? s)
    ++ fanInBreaches settings.thresholds.maxImportFanIn g

variable (resolver : Resolver) (root : Path) (files : List SourceFile)

theorem check_eq : (check disk settings resolver root files).1 =
    cycleBreaches root (ofFiles disk resolver files)
      ++ otherBreaches disk settings (ofFiles disk resolver files)
        ⟨root, root.join settings.primitivesDir, resolver⟩ files := by
  simp only [check, otherBreaches, Metrics.of, List.append_assoc]

theorem findings_otherBreaches (g : Graph) (s : Primitive.Surroundings) :
    Findings (fun r => r.analyzer = "import-graph" ∧ r ≠ .circularDependency)
      (otherBreaches disk settings g s files) := by
  refine .append (.append (.append ?_ ?_) ?_) ?_
  · exact (findings_chainBreach _ _).among (by decide)
  · exact (findings_unusedPrimitives disk settings s files).among (by decide)
  · exact (findings_overwritten s _).among (by decide)
  · exact (findings_fanInBreaches _ g).among (by decide)

theorem findings_check :
    Findings (·.analyzer = "import-graph") (check disk settings resolver root files).1 := by
  rw [check_eq]
  refine .append ?_ ?_
  · exact (findings_cycleBreaches root _).among rfl
  · exact (findings_otherBreaches disk settings files _ _).mono fun r hr => hr.1

theorem ofRule_circularDependency_check :
    ofRule .circularDependency (check disk settings resolver root files).1 =
      cycleBreaches root (ofFiles disk resolver files) := by
  rw [check_eq, ofRule_append, ofRule_eq_self (findings_cycleBreaches root _),
    ofRule_eq_nil (findings_otherBreaches disk settings files _ _) (by simp), List.append_nil]

end Graph

namespace Syntax.SourceFile

theorem counted_of_parse {path : Path} {source : String} {failure : ParseFailure} {place : Location}
    (h : parse path source = .error failure) (hp : failure.place? = some place) :
    place.Counted := by
  unfold parse at h
  split at h
  · obtain rfl := Except.error.inj h
    simp [ParseFailure.place?] at hp
  · simp only at h
    split at h
    · obtain rfl := Except.error.inj h
      obtain rfl := Option.some.inj hp
      exact Location.counted_after _
    · contradiction

theorem counted_of_load {disk : Disk} {path : Path} {failure : ParseFailure} {place : Location}
    (h : load disk path = .error failure) (hp : failure.place? = some place) : place.Counted := by
  unfold load at h
  split at h
  · obtain rfl := Except.error.inj h
    simp [ParseFailure.place?] at hp
  · exact counted_of_parse h hp

end Syntax.SourceFile

namespace Gate

variable (settings : Settings) (tables : Tables) (disk : Disk) (root : Path)

def importGraph : Graph :=
  Graph.ofFiles disk (Program.resolver disk root) (Sources.load settings disk root).files

def typedProgram : Program := Program.build disk root (Sources.load settings disk root).typed

/-- What the gate finds, part by part. -/
def found : List Violation :=
  (Sources.load settings disk root).broken
    ++ ((Sources.load settings disk root).components.map (FileAnalysis.of settings tables)).flatMap
      FileAnalysis.violations
    ++ typedViolations settings tables disk root (Sources.load settings disk root)
    ++ DesignToken.unused settings (Sources.load settings disk root).files
    ++ (Graph.check disk settings (Program.resolver disk root) root
      (Sources.load settings disk root).files).1

theorem perm_found :
    (analyze settings tables disk root).violations.Perm (found settings tables disk root) :=
  perm_sort _

theorem perm_ofRule (r : Rule) : (ofRule r (analyze settings tables disk root).violations).Perm
    (ofRule r (found settings tables disk root)) :=
  (perm_found settings tables disk root).filter _

theorem findings_broken : Findings (· = .parseError) (Sources.load settings disk root).broken := by
  intro v hv
  obtain ⟨⟨p, loaded⟩, he, hv⟩ := List.mem_filterMap.1 hv
  obtain ⟨q, -, hq⟩ := List.mem_map.1 he
  obtain ⟨rfl, rfl⟩ := Prod.mk.inj hq
  simp only at hv
  split at hv
  · simp at hv
  · next failure hf =>
    obtain rfl := Option.some.inj hv
    exact failure.found_breach q fun place => SourceFile.counted_of_load hf

theorem findings_typedViolations (s : Sources) :
    Findings (·.analyzer = "semantic") (typedViolations settings tables disk root s) :=
  .ite .nil (Semantic.findings_check settings tables _)

/-- What the checks on single files and on design tokens find: nothing about cycles. -/
theorem findings_components (files : List SourceFile) :
    Findings (fun r => r.analyzer = "structural" ∨ r.analyzer = "utility-classes" ∨
        r.analyzer = "tokens")
      ((files.map (FileAnalysis.of settings tables)).flatMap FileAnalysis.violations) :=
  .flatMap fun a ha => by
    obtain ⟨file, -, rfl⟩ := List.mem_map.1 ha
    exact FileAnalysis.findings_violations settings tables file

/-- A breach of a rule on types or imports was found in the typed files or in the import graph. -/
theorem ofRule_found {r : Rule} (h : r.analyzer = "semantic" ∨ r.analyzer = "import-graph") :
    ofRule r (found settings tables disk root) =
      ofRule r (typedViolations settings tables disk root (Sources.load settings disk root)) ++
        ofRule r (Graph.check disk settings (Program.resolver disk root) root
          (Sources.load settings disk root).files).1 := by
  have hbroken : ofRule r (Sources.load settings disk root).broken = [] :=
    ofRule_eq_nil (findings_broken settings disk root) (by rintro rfl; simp [Rule.analyzer] at h)
  have hfiles := ofRule_eq_nil (r := r)
    (findings_components settings tables (Sources.load settings disk root).components)
    (by rcases h with h | h <;> simp [h])
  have htokens :
      ofRule r (DesignToken.unused settings (Sources.load settings disk root).files) = [] :=
    ofRule_eq_nil (DesignToken.findings_unused settings _)
      (by rintro rfl; simp [Rule.analyzer] at h)
  simp only [found, ofRule_append, hbroken, hfiles, htokens, List.nil_append, List.append_nil]

/-- A breach of a semantic rule was found in the typed files. -/
theorem ofRule_found_of_semantic {r : Rule} (h : r.analyzer = "semantic") :
    ofRule r (found settings tables disk root) =
      ofRule r (typedViolations settings tables disk root (Sources.load settings disk root)) := by
  have himports := ofRule_eq_nil (r := r)
    (Graph.findings_check disk settings (Program.resolver disk root) root
      (Sources.load settings disk root).files) (by simp [h])
  rw [ofRule_found settings tables disk root (.inl h), himports, List.append_nil]

/-- A breach of a rule on imports was found in the import graph. -/
theorem ofRule_found_of_importGraph {r : Rule} (h : r.analyzer = "import-graph") :
    ofRule r (found settings tables disk root) =
      ofRule r (Graph.check disk settings (Program.resolver disk root) root
        (Sources.load settings disk root).files).1 := by
  have htyped := ofRule_eq_nil (r := r)
    (findings_typedViolations settings tables disk root (Sources.load settings disk root))
    (by simp [h])
  rw [ofRule_found settings tables disk root (.inr h), htyped, List.nil_append]

/-- The cycles that a report names are those of the import graph. -/
theorem perm_circularDependency :
    (ofRule .circularDependency (analyze settings tables disk root).violations).Perm
      (Graph.cycleBreaches root (importGraph settings disk root)) := by
  have h := perm_ofRule settings tables disk root .circularDependency
  rwa [ofRule_found_of_importGraph settings tables disk root rfl,
    Graph.ofRule_circularDependency_check] at h

theorem ofRule_noCircularImports_typedViolations :
    ofRule .noCircularImports
        (typedViolations settings tables disk root (Sources.load settings disk root)) =
      (Sources.load settings disk root).typed.flatMap fun file =>
        ((typedProgram settings disk root).cycleBreach file).map (·.inFile file.path) := by
  unfold typedViolations
  split_ifs with he
  · rw [List.isEmpty_iff.1 he]
    rfl
  · exact Semantic.ofRule_noCircularImports_check settings tables _

/-- The files that a report puts on cycles are the typed ones that lie on a cycle of typed files. -/
theorem perm_noCircularImports :
    (ofRule .noCircularImports (analyze settings tables disk root).violations).Perm
      ((Sources.load settings disk root).typed.flatMap fun file =>
        ((typedProgram settings disk root).cycleBreach file).map (·.inFile file.path)) := by
  have h := perm_ofRule settings tables disk root .noCircularImports
  rwa [ofRule_found_of_semantic settings tables disk root rfl,
    ofRule_noCircularImports_typedViolations] at h

end Gate
end QualityGate
