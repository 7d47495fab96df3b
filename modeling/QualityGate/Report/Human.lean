import QualityGate.Report
import QualityGate.Report.Style

/-!
Reports for readers: a head, the errors, the warnings unless they are left out, and the decision.
-/
namespace QualityGate

inductive SeverityFilter
  | error | warning | all
  deriving DecidableEq, Repr

def SeverityFilter.shows : SeverityFilter → Severity → Bool
  | _, .error => true
  | f, .warning => f != .error

namespace Report

/-- The place of a violation, its file relative to the project. -/
def place (projectDir : String) (v : Violation) : String :=
  match v.file with
  | none => "[project-level]"
  | some file =>
    let short := ((Path.mk file).below? ⟨projectDir⟩).getD file
    match v.line, v.column with
    | some line, some column => short ++ ":" ++ toString line ++ ":" ++ toString column
    | _, _ => short

def entry (colors : Bool) (projectDir : String) (mark : String) (v : Violation) : String :=
  "   " ++ mark ++ " [" ++ (Style.plain .yellow).paint colors v.rule ++ "] " ++ place projectDir v
    ++ " — " ++ v.message ++ "\n"

def head (colors : Bool) (r : Report) : String :=
  "\n" ++ (Style.mk true none).paint colors ("BRUDI AST GATE v" ++ version) ++ "\n"
    ++ "   Project: " ++ r.projectDir ++ "\n"
    ++ "   Files: " ++ toString r.metrics.filesAnalyzed ++ " ("
      ++ toString r.metrics.componentFilesAnalyzed
    ++ " components, " ++ toString r.metrics.typedFilesAnalyzed ++ " TypeScript)\n"
    ++ "   Time: " ++ toString r.metrics.milliseconds ++ "ms\n"
    ++ "   Analyzers: " ++ toString r.metrics.analyzersRun ++ "/5\n\n"

def errorList (colors : Bool) (r : Report) : String :=
  if r.errors.isEmpty then ""
  else (Style.strong .red).paint colors (toString r.errors.length ++ " ERROR(s) — BLOCKING") ++ "\n"
    ++ String.join
      (r.errors.map (entry colors r.projectDir ((Style.plain .red).paint colors "x"))) ++ "\n"

def warningList (colors : Bool) (r : Report) : String :=
  if r.warnings.isEmpty then ""
  else (Style.strong .yellow).paint colors (toString r.warnings.length ++ " WARNING(s)") ++ "\n"
    ++ String.join
      (r.warnings.map (entry colors r.projectDir ((Style.plain .yellow).paint colors "!")))
    ++ "\n"

def decision (colors : Bool) (r : Report) : String :=
  if r.isBlocked then
    (Style.strong .red).paint colors ("AST GATE: BLOCKED (" ++ toString r.summary.errors ++
      " errors)") ++ "\n"
  else
    (Style.strong .green).paint colors ("AST GATE: PASSED (" ++ toString r.summary.warnings
      ++ " warnings)")
      ++ "\n"

def renderHuman (colors : Bool) (filter : SeverityFilter) (r : Report) : String :=
  head colors r ++ errorList colors r
    ++ (if filter.shows .warning then warningList colors r else "") ++ decision colors r

end Report
end QualityGate
