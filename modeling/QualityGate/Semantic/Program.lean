import QualityGate.Graph.Cycle
import QualityGate.Graph.OfFiles
import QualityGate.ProjectConfig
import QualityGate.Violation

/-!
The typed files of a project, with the configurations they answer to and the graph of their imports.
-/
namespace QualityGate

open Syntax

structure Program where
  root : Path
  files : List SourceFile
  /-- The configurations that files answer to, in order. -/
  configs : List ProjectConfig
  /-- The configuration that a path answers to, if any. -/
  nearest : Path → Option Path
  graph : Graph

namespace Program

def nearest? (disk : Disk) (root file : Path) : Option Path :=
  ProjectConfig.nearest? disk root (file.parent?.getD root)

def resolver (disk : Disk) (root : Path) : Resolver :=
  Resolver.ofOptions root
    ((ProjectConfig.nearest? disk root root).map
      fun p => (ProjectConfig.loadOrNothing disk p).options)

def build (disk : Disk) (root : Path) (files : List SourceFile) : Program where
  root
  files
  configs :=
    ((files.filterMap fun f => nearest? disk root f.path).foldl (fun ps p =>
      insertPath p ps) []).map
      (ProjectConfig.loadOrNothing disk)
  nearest := nearest? disk root
  graph := Graph.ofFiles disk (resolver disk root) files

variable (program : Program)

def configFor? (file : SourceFile) : Option ProjectConfig :=
  (program.nearest file.path).bind fun p => program.configs.find? fun c => c.path.same p

def hasUnconfigured : Bool := program.files.any fun f => (program.nearest f.path).isNone

/-- A breach for every configuration that is not strict, and one if a file has none. -/
def strictness : List Violation :=
  ((program.configs.filter fun c => !c.options.strictEnabled).map fun c =>
      (Violation.error .strictModeCheck
        (c.path.fileName?.getD "" ++ " must have \"compilerOptions.strict\": true")).inFile c.path)
    ++ (if program.hasUnconfigured then
      [Violation.error .strictModeCheck "tsconfig.json not found in project hierarchy"] else [])

def cycleBreach (file : SourceFile) : List Violation :=
  (program.graph.cycleThrough file.path).toList.map fun cycle =>
    Violation.error .noCircularImports ("File is part of a circular import chain: "
      ++ " -> ".intercalate (cycle.map (·.shownFrom program.root)))

end Program
end QualityGate
