import QualityGate.Graph.Chain
import QualityGate.Graph.OfFiles
import QualityGate.Graph.Primitive
import QualityGate.Settings

/-!
Checks on the imports of a whole project: cycles, long chains, use of the primitives, and modules
that too many files import.
-/
namespace QualityGate.Graph

open Syntax

structure Metrics where
  fileCount : Nat
  edgeCount : Nat
  circularDependencies : Nat
  maxImportDepth : Nat
  deriving DecidableEq, Repr

def Metrics.zero : Metrics := ⟨0, 0, 0, 0⟩

def Metrics.of (g : Graph) : Metrics := ⟨g.fileCount, g.edgeCount, g.cycles.length, g.longestChain⟩

def arrows (root : Path) (cycle : List Path) : String :=
  " -> ".intercalate (cycle.map (·.shownFrom root))

def cycleBreaches (root : Path) (g : Graph) : List Violation :=
  g.cycles.map fun cycle =>
    Violation.error .circularDependency ("Circular dependency detected: " ++ arrows root cycle)

def chainBreach (limit depth : Nat) : List Violation :=
  if depth > limit then
    [Violation.warning .deepImportChain ("Import chain depth is " ++ toString depth
      ++ ", exceeds max of "
      ++ toString limit ++ " levels")]
  else []

def withoutSlashes (text : String) : String :=
  String.ofList (text.toList.reverse.dropWhile (· = '/')).reverse

/-- A breach where there is a folder of primitives and no file imports from it. -/
def unusedPrimitives (disk : Disk) (settings : Settings) (s : Primitive.Surroundings)
    (files : List SourceFile) : List Violation :=
  if disk.isFolder s.dir && !files.any (Primitive.importsAny s) then
    [Violation.warning .primitivesNotUsed
      (withoutSlashes settings.primitivesDir ++ "/ directory exists but is not imported anywhere")]
  else []

def fanInBreaches (limit : Nat) (g : Graph) : List Violation :=
  (g.fanIn.filter fun e => e.2 > limit).map fun (target, n) =>
    (Violation.warning .duplicateImport ("Module \"" ++ target.fileName?.getD ""
      ++ "\" is imported in "
      ++ toString n ++ " files. Consider re-exporting.")).inFile target

def check (disk : Disk) (settings : Settings) (resolver : Resolver) (root : Path)
    (files : List SourceFile) : List Violation × Metrics :=
  let g := ofFiles disk resolver files
  let metrics := Metrics.of g
  let s : Primitive.Surroundings := ⟨root, root.join settings.primitivesDir, resolver⟩
  let outside := files.filter fun f => !f.path.startsWith s.dir
  (cycleBreaches root g
    ++ chainBreach settings.thresholds.maxImportDepth metrics.maxImportDepth
    ++ unusedPrimitives disk settings s files
    ++ outside.filterMap (Primitive.overwritten? s)
    ++ fanInBreaches settings.thresholds.maxImportFanIn g, metrics)

end QualityGate.Graph
