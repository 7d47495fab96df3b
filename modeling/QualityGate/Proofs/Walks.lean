import QualityGate.NodeRule
import QualityGate.Semantic.Nesting
import QualityGate.Proofs.Syntax.Cursor
import QualityGate.Proofs.Syntax.Position

/-!
The checks that count on their way through a tree. Each finds at every place what the place alone
calls for, given the number of elements, or of functions, above it. So these walks, and the plain
one, are the recursive traversal of the tree.
-/
namespace QualityGate

open Syntax Node

namespace NodeRule

variable (rules : List NodeRule) (scope : Scope)

/-- What the interested rules find at a place, elements being counted with the node itself. -/
def breachesAt (p : Place) : List Violation :=
  breaches rules scope ((p.node :: p.above).countP (·.kind.isElement)) p.node

theorem survey?_eq (root : Node) :
    survey? rules scope root = some (.zero, (places [] root).flatMap (breachesAt rules scope)) := by
  have hcount (p : Place) :
      (if p.node.kind.isElement then p.level Kind.isElement + 1 else p.level Kind.isElement) =
      (p.node :: p.above).countP (·.kind.isElement) := by
    rw [List.countP_cons, Place.level]
    split <;> rfl
  simp only [survey?, Node.survey?_eq, hcount]
  rfl

theorem run_eq : run rules scope =
    ((places [] scope.file.root).flatMap (breachesAt rules scope)).map
      (·.inFile scope.file.path) := by
  rw [run, survey?_eq]

end NodeRule

namespace Nesting

variable (file : SourceFile) (max : Nat)

def isDeep (p : Place) : Bool := p.node.kind.isFunctionLike && p.level Kind.isFunctionLike > max

def breachAt (p : Place) : Violation := breach file max (p.level Kind.isFunctionLike) p.node

theorem survey?_eq (root : Node) :
    survey? file max root =
      some (.zero, ((places [] root).filter (isDeep max)).map (breachAt file max)) := by
  rw [survey?, Node.survey?_eq]
  congr
  induction places [] root with
  | nil => rfl
  | cons p ps ih => cases h : isDeep max p <;> simp_all [isDeep, breachAt]

theorem check_eq (settings : Settings) : check settings file =
    ((places [] file.root).filter (isDeep settings.thresholds.maxFunctionNesting)).map
      (breachAt file settings.thresholds.maxFunctionNesting) := by
  rw [check, survey?_eq]

end Nesting

end QualityGate
