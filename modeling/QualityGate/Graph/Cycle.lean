import QualityGate.Graph

/-!
Import cycles: a depth-first search that lists cycles, and a breadth-first search for the shortest
cycle through one file. A cycle is written `[a, b, …, a]`.
-/
namespace QualityGate.Graph

/-- What a depth-first search has seen so far. -/
structure Search where
  visited : List Path
  /-- Each ring once, from its least file on. -/
  rings : List (List Path)
  /-- The cycles in the order in which they were met. -/
  cycles : List (List Path)

namespace Search

def start : Search := ⟨[], [], []⟩

def visit (s : Search) (p : Path) : Search := { s with visited := p :: s.visited }

def sameAll (ps qs : List Path) : Bool := ps.map Path.components == qs.map Path.components

def least : Path → List Path → Path
  | p, [] => p
  | p, q :: qs => least (if q.before p then q else p) qs

/-- The ring as it reads from its least file on. -/
def canonical : List Path → List Path
  | [] => []
  | p :: ps =>
    let low := least p ps
    let (front, back) := (p :: ps).span fun q => !q.same low
    back ++ front

/-- Notes the cycle that the import `target` closes on the path `trail`, the latest file first. -/
def close (s : Search) (trail : List Path) (target : Path) : Search :=
  let ring := trail.reverse.dropWhile fun p => !p.same target
  if s.rings.any (sameAll (canonical ring)) then s
  else { s with rings := canonical ring :: s.rings, cycles := s.cycles ++ [ring ++ [target]] }

end Search

/-- Follows the imports of the file at the head of `trail`. -/
def explore (g : Graph) : Nat → List Path → Path → Search → Search
  | 0, _, _, s => s
  | fuel + 1, trail, p, s =>
    (g.imports p).foldl (fun s target =>
      if !holds s.visited target then
        explore g fuel (target :: trail) target (s.visit target)
      else if holds trail target then s.close trail target
      else s) s

/-- The cycles that a depth-first search from the files in order meets; of the rotations of one
cycle only the first. -/
def cycles (g : Graph) : List (List Path) :=
  (g.files.foldl (fun s p =>
    if holds s.visited p then s else explore g g.bound [p] p (s.visit p)) Search.start).cycles

/-- How far a breadth-first search has come. -/
structure Reached where
  /-- Each file with the one that led to it, the latest first. The start of the search is not among
  them. -/
  parents : List (Path × Path)
  /-- Files whose imports are still to be followed. -/
  queue : List Path
  deriving DecidableEq, Repr

namespace Reached

def nothing : Reached := ⟨[], []⟩

def parent? (r : Reached) (p : Path) : Option Path :=
  (r.parents.find? fun entry => entry.1.same p).map (·.2)

/-- Notes that `p` leads to `target`, unless another file did before. -/
def add (p : Path) (r : Reached) (target : Path) : Reached :=
  if (r.parent? target).isSome then r else ⟨(target, p) :: r.parents, r.queue ++ [target]⟩

/-- Follows the imports of `p` up to one of `start`; tells whether there is one. -/
def expand (start p : Path) : List Path → Reached → Bool × Reached
  | [], r => (false, r)
  | target :: targets, r =>
    if target.same start then (true, r) else expand start p targets (r.add p target)

/-- The files by which the search came from `start` to `p`, and then the later ones. -/
def wayTo? (r : Reached) (start : Path) : Nat → Path → List Path → Option (List Path)
  | 0, _, _ => none
  | fuel + 1, p, later =>
    match r.parent? p with
    | some q => if q.same start then some (p :: later) else wayTo? r start fuel q (p :: later)
    | none => some (p :: later)

end Reached

/-- Continues a breadth-first search up to a file that imports `start`, which it tells. -/
def searchBack (g : Graph) (start : Path) : Nat → Reached → Option (Reached × Path)
  | 0, _ => none
  | fuel + 1, ⟨parents, queue⟩ =>
    match queue with
    | [] => none
    | p :: queue =>
      match Reached.expand start p (g.imports p) ⟨parents, queue⟩ with
      | (true, r) => some (r, p)
      | (false, r) => searchBack g start fuel r

/-- The cycle that the search from `start` comes back on, if it does not import itself. -/
def comeBack? (g : Graph) (start : Path) (r : Reached) : Option (List Path) := do
  let (r, last) ← searchBack g start g.bound r
  let way ← r.wayTo? start r.parents.length last []
  return start :: way ++ [start]

/-- A shortest cycle through a file of the graph. -/
def cycleThrough (g : Graph) (p : Path) : Option (List Path) := do
  let start ← g.file? p
  match Reached.expand start start (g.imports start) .nothing with
  | (true, _) => return [start, start]
  | (false, r) => comeBack? g start r

end QualityGate.Graph
