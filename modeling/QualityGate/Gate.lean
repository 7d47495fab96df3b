import QualityGate.Discovery
import QualityGate.FileAnalysis
import QualityGate.Report
import QualityGate.Semantic.Check
import QualityGate.Settings.File

/-!
The gate: finds the source files of a project, parses each of them once, runs all checks and reports
what they find.
-/
namespace QualityGate

open Syntax

inductive GateFailure
  | missing (dir : Path)
  | notFolder (root : Path)
  | settings (cause : ConfigFailure)
  deriving DecidableEq, Repr

def GateFailure.message : GateFailure → String
  | missing dir => "project directory not found: " ++ dir.text
  | notFolder root => "not a directory: " ++ root.text
  | settings cause => cause.message

namespace Gate

/-- The sources of a project: the files that could be parsed, and what is wrong with the others. -/
structure Sources where
  paths : List Path
  files : List SourceFile
  broken : List Violation

def Sources.load (settings : Settings) (disk : Disk) (root : Path) : Sources :=
  let paths := Discovery.sources settings disk root
  let loaded := paths.map fun p => (p, SourceFile.load disk p)
  { paths
    files := loaded.filterMap fun e => e.2.toOption
    broken := loaded.filterMap fun e =>
      match e.2 with
      | .ok _ => none
      | .error failure => some (failure.breach e.1) }

namespace Sources

def components (s : Sources) : List SourceFile := s.files.filter fun f => isComponentFile f.path

def typed (s : Sources) : List SourceFile := s.files.filter fun f => isTypedFile f.path

end Sources

/-- How many kinds of checks were run. -/
def analyzersRun (s : Sources) : Nat :=
  (if s.components.isEmpty then 0 else 3) + (if s.typed.isEmpty then 0 else 1) + 1

/-- What the checks on the typed files find; there is nothing to check if there are none. -/
def typedViolations (settings : Settings) (tables : Tables) (disk : Disk) (root : Path)
    (s : Sources) :
    List Violation :=
  if s.typed.isEmpty then []
  else Semantic.check settings tables (Program.build disk root s.typed)

/-- The report on the project at `root`, an absolute path. -/
def analyze (settings : Settings) (tables : Tables) (disk : Disk) (root : Path) : Report :=
  let s := Sources.load settings disk root
  let analyses := s.components.map (FileAnalysis.of settings tables)
  let imports := Graph.check disk settings (Program.resolver disk root) root s.files
  let metrics : Report.Metrics :=
    { filesAnalyzed := s.paths.length
      componentFilesAnalyzed := (s.paths.filter isComponentFile).length
      typedFilesAnalyzed := (s.paths.filter isTypedFile).length
      analyzersRun := analyzersRun s
      milliseconds := 0
      utilityClasses := (analyses.map (·.utilityClasses.2)).foldl .merge .zero
      tokens := (analyses.map (·.tokens.2)).foldl .merge .zero
      importGraph := imports.2 }
  Report.of root.text metrics
    (s.broken ++ analyses.flatMap FileAnalysis.violations
      ++ typedViolations settings tables disk root s
      ++ DesignToken.unused settings s.files
      ++ imports.1)

/-- Checks the project in a folder by its own settings. -/
def run (disk : Disk) (dir : Path) : Except GateFailure Report :=
  match Settings.load disk dir with
  | .error cause => .error (.settings cause)
  | .ok settings =>
    match disk.canonical? dir with
    | none => .error (.missing dir)
    | some root =>
      if disk.isFolder root then .ok (analyze settings .default disk root)
      else .error (.notFolder root)

end Gate
end QualityGate
