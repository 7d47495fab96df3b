import QualityGate.Rule
import QualityGate.Syntax.SourceFile

/-!
Breaches of rules, and the order in which a report lists them.
-/
namespace QualityGate

/-- One breach. What concerns the project as a whole has no file, line and column. -/
structure Violation where
  rule : String
  severity : Severity
  message : String
  line : Option Nat
  column : Option Nat
  file : Option String
  deriving DecidableEq, Repr

namespace Violation

def error (rule : Rule) (message : String) : Violation :=
  ⟨rule.id, .error, message, none, none, none⟩

def warning (rule : Rule) (message : String) : Violation :=
  ⟨rule.id, .warning, message, none, none, none⟩

def located (v : Violation) (l : Syntax.Location) : Violation :=
  { v with line := some l.line, column := some l.column }

def inFile (v : Violation) (p : Path) : Violation := { v with file := some p.text }

def isError (v : Violation) : Bool := v.severity = .error

/-- What concerns a file comes first, by file, line, column, rule and message. -/
def compare (a b : Violation) : Ordering :=
  (Ord.compare a.file.isNone b.file.isNone).then <|
  (Ord.compare (a.file.getD "") (b.file.getD "")).then <|
  (Ord.compare (a.line.getD 0) (b.line.getD 0)).then <|
  (Ord.compare (a.column.getD 0) (b.column.getD 0)).then <|
  (Ord.compare a.rule b.rule).then (Ord.compare a.message b.message)

def le (a b : Violation) : Bool := (compare a b).isLE

def sort (vs : List Violation) : List Violation := vs.mergeSort le

end Violation
end QualityGate
