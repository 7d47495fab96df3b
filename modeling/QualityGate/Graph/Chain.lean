import QualityGate.Graph.Cycle

/-!
The longest chain of imports, counted in files.
-/
namespace QualityGate.Graph

abbrev Lengths := List (Path × Nat)

def Lengths.get? (known : Lengths) (p : Path) : Option Nat :=
  (known.find? fun entry => entry.1.same p).map (·.2)

/-- The length of the longest chain from `p` on whose files do not lie on `trail`. It is remembered
for a file outside every cycle, where it does not depend on `trail`. -/
def chainFrom (g : Graph) (cyclic : List Path) :
    Nat → List Path → Path → Lengths → Nat × Lengths
  | 0, _, _, known => (0, known)
  | fuel + 1, trail, p, known =>
    if holds trail p then (0, known)
    else match known.get? p with
      | some n => (n, known)
      | none =>
        match g.imports p with
        | [] => (1, known)
        | targets =>
          let (deepest, known) := targets.foldl (fun (deepest, known) target =>
            let (n, known) := chainFrom g cyclic fuel (p :: trail) target known
            (max deepest n, known)) (0, known)
          (deepest + 1, if holds cyclic p then known else (p, deepest + 1) :: known)

def longestChain (g : Graph) : Nat :=
  let cyclic := g.files.filter fun p => (g.cycleThrough p).isSome
  (g.files.foldl (fun (longest, known) p =>
    let (n, known) := chainFrom g cyclic g.bound [] p known
    (max longest n, known)) (0, [])).1

end QualityGate.Graph
