import QualityGate.DesignToken
import QualityGate.Graph.Check
import QualityGate.UtilityClass.Check
import QualityGate.Violation

/-!
The report of one run of the gate.
-/
namespace QualityGate

namespace Report

/-- Counters that a report shows and that decide nothing. -/
structure Metrics where
  filesAnalyzed : Nat
  componentFilesAnalyzed : Nat
  typedFilesAnalyzed : Nat
  analyzersRun : Nat
  milliseconds : Nat
  utilityClasses : UtilityClass.Metrics
  tokens : DesignToken.Metrics
  importGraph : Graph.Metrics
  deriving DecidableEq, Repr

structure Summary where
  total : Nat
  errors : Nat
  warnings : Nat
  blocked : Bool
  deriving DecidableEq, Repr

def Summary.of (vs : List Violation) : Summary :=
  let errors := (vs.filter Violation.isError).length
  ⟨vs.length, errors, vs.length - errors, errors > 0⟩

end Report

structure Report where
  projectDir : String
  metrics : Report.Metrics
  violations : List Violation
  deriving DecidableEq, Repr

namespace Report

def version : String := "1.0.0"

/-- A report lists its violations in order. -/
def of (projectDir : String) (metrics : Metrics) (vs : List Violation) : Report :=
  ⟨projectDir, metrics, Violation.sort vs⟩

variable (r : Report)

def summary : Summary := Summary.of r.violations

def errors : List Violation := r.violations.filter Violation.isError

def warnings : List Violation := r.violations.filter (!·.isError)

def isBlocked : Bool := r.summary.blocked

end Report
end QualityGate
