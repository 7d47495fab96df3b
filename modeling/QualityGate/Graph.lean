import QualityGate.Path

/-!
Import graphs: the files of a project, each with the files that it imports. Files and imports are
kept in the order of paths, and a path that is put in twice keeps its first spelling.
-/
namespace QualityGate

/-- Puts a path into an ordered list, unless the same path is there. -/
def insertPath (p : Path) : List Path → List Path
  | [] => [p]
  | q :: qs =>
    if p.same q then q :: qs
    else if p.before q then p :: q :: qs
    else q :: insertPath p qs

def holds (ps : List Path) (p : Path) : Bool := ps.any (·.same p)

structure Graph where
  /-- Files with their imports. -/
  rows : List (Path × List Path)
  deriving Repr

namespace Graph

def empty : Graph := ⟨[]⟩

/-- Changes the imports of a file, which becomes part of the graph. -/
def update (change : List Path → List Path) (p : Path) :
    List (Path × List Path) → List (Path × List Path)
  | [] => [(p, change [])]
  | (q, targets) :: rest =>
    if p.same q then (q, change targets) :: rest
    else if p.before q then (p, change []) :: (q, targets) :: rest
    else (q, targets) :: update change p rest

def addFile (g : Graph) (p : Path) : Graph := ⟨update id p g.rows⟩

/-- The importing file becomes part of the graph, the imported one need not. -/
def addEdge (g : Graph) (source target : Path) : Graph :=
  ⟨update (insertPath target) source g.rows⟩

variable (g : Graph)

def files : List Path := g.rows.map (·.1)

def fileCount : Nat := g.rows.length

def edgeCount : Nat := (g.rows.flatMap (·.2)).length

/-- The file in the spelling of the graph. -/
def file? (p : Path) : Option Path := g.files.find? (·.same p)

def imports (p : Path) : List Path :=
  ((g.rows.find? fun row => row.1.same p).map (·.2)).getD []

def count (p : Path) : List (Path × Nat) → List (Path × Nat)
  | [] => [(p, 1)]
  | (q, n) :: rest =>
    if p.same q then (q, n + 1) :: rest
    else if p.before q then (p, 1) :: (q, n) :: rest
    else (q, n) :: count p rest

/-- Every imported path with the number of files that import it. -/
def fanIn : List (Path × Nat) := (g.rows.flatMap (·.2)).foldl (fun counts p => count p counts) []

/-- More than the number of files and imported paths: no search visits as many. -/
def bound : Nat := g.fileCount + g.edgeCount + 1

end Graph
end QualityGate
