import QualityGate.Command.Execute
import QualityGate.Proofs.Json.RoundTrip
import QualityGate.Proofs.Report.RollUp
import QualityGate.Proofs.Violation
import Mathlib.Data.List.Basic
import Mathlib.Data.List.Count

/-!
What the three renderings of a report show. The texts of documents are read back, so that what they
list is what a reader of documents finds in them.
-/
namespace QualityGate

namespace Json

def get? (key : String) : Json → Option Json
  | .object entries => (entries.find? (·.1 == some key)).map (·.2)
  | _ => none

/-- The value that keys lead to, one after the other. -/
def find? (keys : List String) (v : Json) : Option Json := keys.foldlM (fun v key => v.get? key) v

def textAt? (keys : List String) (v : Json) : Option String := (v.find? keys).bind text?

end Json

theorem Violation.reads_toJson (v : Violation) : v.toJson.Reads := by
  obtain ⟨rule, severity, message, line, column, file⟩ := v
  refine .record ?_
  cases line <;> cases column <;> cases file <;> simp

namespace Report

variable (r : Report) (timestamp : String)

theorem reads_toJson : (r.toJson timestamp).Reads := by
  have hclasses : r.metrics.utilityClasses.toJson.Reads := .record (by simp)
  have hratio : r.metrics.tokens.adoption.Reads := .number (.unsigned (.ratio _ _))
  have htokens : r.metrics.tokens.toJson.Reads := .record (by simp [hratio])
  have hgraph : r.metrics.importGraph.toJson.Reads := .record (by simp)
  have hmetrics : r.metrics.toJson.Reads := .record (by simp [hclasses, htokens, hgraph])
  have hsummary : r.summary.toJson.Reads := .record (by simp)
  have hviolations : (Json.array (r.violations.map Violation.toJson)).Reads :=
    .array (List.forall_mem_map.2 fun v _ => v.reads_toJson)
  exact .record (by simp [hmetrics, hsummary, hviolations])

end Report

namespace Report.Sarif

theorem reads_result (projectDir : String) (v : Violation) : (result projectDir v).Reads := by
  refine .record (List.forall_mem_cons.2 ⟨.text _, List.forall_mem_cons.2 ⟨?places,
    List.forall_mem_cons.2 ⟨?message, List.forall_mem_singleton.2 (.text _)⟩⟩⟩)
  case message => exact .record (by simp)
  case places =>
    refine .array (List.forall_mem_singleton.2 (.record (List.forall_mem_singleton.2 (.record ?_))))
    exact List.forall_mem_cons.2 ⟨.record (by simp),
      List.forall_mem_singleton.2 (.record (by simp))⟩

theorem reads_driver (r : Report) : (Json.record
    [("name", .text "brudi-gate"), ("rules", .array ((rules r.violations).map rule)),
     ("version", .text version)]).Reads := by
  have hrules : (Json.array ((rules r.violations).map rule)).Reads := by
    refine .array (List.forall_mem_map.2 fun id _ => .record ?_)
    exact List.forall_mem_cons.2 ⟨.text id, List.forall_mem_singleton.2 (.record (by simp))⟩
  exact .record (by simp [hrules])

theorem reads_log (r : Report) : (log r).Reads := by
  refine .record (List.forall_mem_cons.2 ⟨.text _, List.forall_mem_cons.2 ⟨?runs,
    List.forall_mem_singleton.2 (.text _)⟩⟩)
  refine .array (List.forall_mem_singleton.2 (.record (List.forall_mem_cons.2 ⟨?results,
    List.forall_mem_singleton.2 (.record (List.forall_mem_singleton.2 (reads_driver r)))⟩)))
  exact .array (List.forall_mem_map.2 fun v _ => reads_result r.projectDir v)

end Report.Sarif

def Violation.told (v : Violation) : List (Option String) :=
  [some v.rule, some v.severity.name, some v.message]

def Json.tells (keys : List (List String)) (entry : Json) : List (Option String) :=
  keys.map fun ks => entry.textAt? ks

namespace Report

/-- The text is a document with one entry for each violation, in their order, that holds all of
it. -/
def ListedInJson (text : String) (r : Report) : Prop :=
  ∃ doc entries, Json.read? text.toList = some doc ∧ doc.get? "violations" = some (.array entries) ∧
    entries = r.violations.map Violation.toJson ∧
    entries.map (Json.tells [["rule"], ["severity"], ["message"]]) = r.violations.map Violation.told

/-- The text is a log of one run that has one result for each violation, in their order. Each rule
of a result is described once, and no other rule is. -/
def ListedInSarif (text : String) (r : Report) : Prop :=
  ∃ log run results rules, Json.read? text.toList = some log ∧
    log.get? "runs" = some (.array [run]) ∧ run.get? "results" = some (.array results) ∧
    run.find? ["tool", "driver", "rules"] = some (.array rules) ∧
    results = r.violations.map (Sarif.result r.projectDir) ∧
    results.map (Json.tells [["ruleId"], ["level"], ["message", "text"]]) =
      r.violations.map Violation.told ∧
    (∀ result ∈ results, (rules.map (Json.textAt? ["id"])).count (result.textAt? ["ruleId"]) = 1) ∧
    ∀ rule ∈ rules, ∃ result ∈ results, result.textAt? ["ruleId"] = rule.textAt? ["id"]

variable (r : Report)

theorem tells_toJson (v : Violation) :
    v.toJson.tells [["rule"], ["severity"], ["message"]] = v.told := by
  rfl

theorem listedInJson {text : String} {timestamp : String}
    (h : Json.read? text.toList = some (r.toJson timestamp)) : ListedInJson text r := by
  refine ⟨_, _, h, rfl, rfl, ?_⟩
  rw [List.map_map]
  exact List.map_congr_left fun v _ => tells_toJson v

theorem listedInSarif {text : String} (h : Json.read? text.toList = some (Sarif.log r)) :
    ListedInSarif text r := by
  refine ⟨_, _, _, _, h, rfl, rfl, rfl, rfl, ?_, ?_, ?_⟩
  · rw [List.map_map]
    exact List.map_congr_left fun v _ => rfl
  · refine List.forall_mem_map.2 fun v hv => ?_
    have hids : ((Sarif.rules r.violations).map Sarif.rule).map (Json.textAt? ["id"]) =
        (Sarif.rules r.violations).map some := by
      rw [List.map_map]
      exact List.map_congr_left fun id _ => rfl
    have hresult : (Sarif.result r.projectDir v).textAt? ["ruleId"] = some v.rule := rfl
    have hmem : v.rule ∈ Sarif.rules r.violations :=
      List.mem_eraseDups.2 (List.mem_map_of_mem hv)
    rw [hids, hresult, List.count_map_of_injective _ _ (fun _ _ => Option.some.inj)]
    exact List.count_eq_one_of_mem (nodup_eraseDups _) hmem
  · refine List.forall_mem_map.2 fun id hid => ?_
    obtain ⟨v, hv, rfl⟩ := List.mem_map.1 (List.mem_eraseDups.1 hid)
    exact ⟨_, List.mem_map_of_mem hv, rfl⟩

end Report

end QualityGate
