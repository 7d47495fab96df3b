import QualityGate.Violation
import QualityGate.Settings
import QualityGate.Tables
import QualityGate.Syntax.Node.Cursor
import QualityGate.Syntax.Literals

/-!
Rules that look at one node at a time, and the walk that offers them every node of a file.
-/
namespace QualityGate

open Syntax

/-- What a rule knows besides the node. -/
structure Scope where
  file : SourceFile
  settings : Settings
  tables : Tables

structure NodeRule where
  interested : Kind → Bool
  /-- The breaches at a node, given the number of elements on the path from the root down to it. -/
  check : Scope → Nat → Node → List Violation

namespace NodeRule

def breaches (rules : List NodeRule) (scope : Scope) (depth : Nat) (n : Node) : List Violation :=
  (rules.filter (·.interested n.kind)).flatMap fun r => r.check scope depth n

/-- The breaches in a tree, parents before children, and the count of elements behind it. -/
def survey? (rules : List NodeRule) (scope : Scope) (root : Node) :
    Option (Node.Tally × List Violation) :=
  root.survey? Kind.isElement fun outer n =>
    breaches rules scope (if n.kind.isElement then outer + 1 else outer) n

def run (rules : List NodeRule) (scope : Scope) : List Violation :=
  match survey? rules scope scope.file.root with
  | some (_, found) => found.map (·.inFile scope.file.path)
  | none => []

end NodeRule
end QualityGate
