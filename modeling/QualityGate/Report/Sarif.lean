import QualityGate.Json.Printer
import QualityGate.Report

/-!
Reports as SARIF logs. What concerns no file is filed on the project folder.
-/
namespace QualityGate.Report

namespace Sarif

/-- The rules that violations breach, each once. -/
def rules (vs : List Violation) : List String := (vs.map (·.rule)).eraseDups

def describe (id : String) : String :=
  ((Rule.catalog.find? (·.id == id)).map Rule.description).getD id

def rule (id : String) : Json :=
  Json.record [("id", .text id), ("shortDescription", Json.record [("text", .text (describe id))])]

def uri (projectDir : String) (v : Violation) : String :=
  match v.file with
  | none => "."
  | some file =>
    match (Path.mk file).below? ⟨projectDir⟩ with
    | some rest => Path.slashed rest
    | none => file

def result (projectDir : String) (v : Violation) : Json :=
  Json.record
    [("level", .text v.severity.name),
     ("locations", .array [Json.record
        [("physicalLocation", Json.record
          [("artifactLocation", Json.record
            [("uri", .text (uri projectDir v)), ("uriBaseId", .text "%SRCROOT%")]),
           ("region", Json.record
            [("startColumn", .nat (v.column.getD 1)), ("startLine", .nat (v.line.getD 1))])])]]),
     ("message", Json.record [("text", .text v.message)]),
     ("ruleId", .text v.rule)]

def schema : String :=
  "https://raw.githubusercontent.com/oasis-tcs/sarif-spec/master/Schemata/sarif-schema-2.1.0.json"

def log (r : Report) : Json :=
  Json.record
    [("$schema", .text schema),
     ("runs", .array [Json.record
        [("results", .array (r.violations.map (result r.projectDir))),
         ("tool", Json.record
          [("driver", Json.record
            [("name", .text "brudi-gate"),
             ("rules", .array ((rules r.violations).map rule)),
             ("version", .text version)])])]]),
     ("version", .text "2.1.0")]

end Sarif

def renderSarif (r : Report) : String := (Sarif.log r).render

end QualityGate.Report
