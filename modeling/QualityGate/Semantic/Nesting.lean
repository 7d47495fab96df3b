import QualityGate.Settings
import QualityGate.Syntax.Node.Cursor
import QualityGate.Violation

/-!
Functions inside functions.
-/
namespace QualityGate.Nesting

open Syntax

def breach (file : SourceFile) (max depth : Nat) (n : Node) : Violation :=
  (Violation.warning .noDeepNesting ("Function nested " ++ toString depth ++ " levels deep (max "
    ++ toString max
    ++ ")")).located (file.location n)

/-- The functions of a tree with more than `max` functions around them, and the count of functions
behind it. -/
def survey? (file : SourceFile) (max : Nat) (root : Node) : Option (Node.Tally × List Violation) :=
  root.survey? Kind.isFunctionLike fun depth n =>
    if n.kind.isFunctionLike && depth > max then [breach file max depth n] else []

def check (settings : Settings) (file : SourceFile) : List Violation :=
  match survey? file settings.thresholds.maxFunctionNesting file.root with
  | some (_, found) => found
  | none => []

end QualityGate.Nesting
