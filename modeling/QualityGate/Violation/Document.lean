import QualityGate.Violation
import QualityGate.Json.Record

/-!
Violations as JSON records.
-/
namespace QualityGate

def Severity.ofName? : String → Option Severity
  | "error" => some error
  | "warning" => some warning
  | _ => none

/-- Reads the name of a severity, by itself or as the only key of an object without a value. -/
def Severity.ofJson? : Json → Option Severity
  | .string name => name.bind ofName?
  | .object [(name, .null)] => name.bind ofName?
  | _ => none

namespace Violation

def toJson (v : Violation) : Json :=
  Json.record ([("rule", Json.text v.rule), ("severity", Json.text v.severity.name),
    ("message", Json.text v.message)]
    ++ (v.line.map fun n => ("line", Json.nat n)).toList
    ++ (v.column.map fun n => ("column", Json.nat n)).toList
    ++ (v.file.map fun f => ("file", Json.text f)).toList)

def ofValues? (rule severity message line column file : Option Json) : Option Violation := do
  return {
    rule := ← rule.bind Json.text?
    severity := ← severity.bind Severity.ofJson?
    message := ← message.bind Json.text?
    line := ← Json.reading Json.nat? line
    column := ← Json.reading Json.nat? column
    file := ← Json.reading Json.text? file }

/-- Reads a record, or a list of all values in order. -/
def ofJson? : Json → Option Violation
  | .object entries => do
    guard (Json.haveKeys entries)
    ofValues? (← Json.field? entries "rule") (← Json.field? entries "severity")
      (← Json.field? entries "message") (← Json.field? entries "line")
      (← Json.field? entries "column") (← Json.field? entries "file")
  | .array [rule, severity, message, line, column, file] =>
    ofValues? rule.present? severity.present? message.present? line.present? column.present?
      file.present?
  | _ => none

def ofJsonList? : Json → Option (List Violation)
  | .array items => items.mapM ofJson?
  | _ => none

end Violation
end QualityGate
