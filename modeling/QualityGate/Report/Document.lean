import QualityGate.Decimal.Ratio
import QualityGate.Json.Printer
import QualityGate.Report
import QualityGate.Violation.Document

/-!
Reports as JSON documents.
-/
namespace QualityGate

def UtilityClass.Metrics.toJson (m : UtilityClass.Metrics) : Json :=
  Json.record
    [("uniqueSpacingValues", .nat m.uniqueSpacingValues),
      ("uniqueMaxWValues", .nat m.uniqueMaxWValues), ("uniqueFontSizes", .nat m.uniqueFontSizes),
      ("arbitraryValueCount", .nat m.arbitraryValueCount), ("maxGridCols", .nat m.maxGridCols)]

/-- The share of design tokens among the values that could be tokens. -/
def DesignToken.Metrics.adoption (m : DesignToken.Metrics) : Json :=
  .number (Decimal.ratio m.references (m.references + m.hardcoded))

def DesignToken.Metrics.toJson (m : DesignToken.Metrics) : Json :=
  Json.record
    [("tokenReferences", .nat m.references), ("hardcodedValues", .nat m.hardcoded),
     ("adoptionRatio", m.adoption)]

def Graph.Metrics.toJson (m : Graph.Metrics) : Json :=
  Json.record
    [("fileCount", .nat m.fileCount), ("edgeCount", .nat m.edgeCount),
     ("circularDependencies", .nat m.circularDependencies),
     ("maxImportDepth", .nat m.maxImportDepth)]

namespace Report

def Metrics.toJson (m : Metrics) : Json :=
  Json.record
    [("filesAnalyzed", .nat m.filesAnalyzed),
      ("componentFilesAnalyzed", .nat m.componentFilesAnalyzed),
      ("typeScriptFilesAnalyzed", .nat m.typedFilesAnalyzed), ("analyzersRun", .nat m.analyzersRun),
      ("analyzeTimeMs", .nat m.milliseconds), ("utilityClasses", m.utilityClasses.toJson),
      ("tokens", m.tokens.toJson), ("importGraph", m.importGraph.toJson)]

def Summary.toJson (s : Summary) : Json :=
  Json.record
    [("totalViolations", .nat s.total), ("errorCount", .nat s.errors),
      ("warningCount", .nat s.warnings), ("blocked", .boolean s.blocked)]

def toJson (r : Report) (timestamp : String) : Json :=
  Json.record
    [("version", .text version), ("projectDir", .text r.projectDir), ("timestamp", .text timestamp),
     ("metrics", r.metrics.toJson), ("summary", r.summary.toJson),
     ("violations", .array (r.violations.map Violation.toJson))]

def renderJson (r : Report) (timestamp : String) : String := (r.toJson timestamp).render

end Report
end QualityGate
