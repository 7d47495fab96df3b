import QualityGate.DesignToken
import QualityGate.Structure
import QualityGate.UtilityClass.Check

/-!
What the checks on single component files find.
-/
namespace QualityGate

open Syntax

def Syntax.ParseFailure.breach (path : Path) (failure : ParseFailure) : Violation :=
  let v := (Violation.error .parseError ("Failed to parse file: " ++ failure.message)).inFile path
  match failure.place? with
  | some place => v.located place
  | none => v

structure FileAnalysis where
  markup : List Violation
  utilityClasses : List Violation × UtilityClass.Metrics
  tokens : List Violation × DesignToken.Metrics

namespace FileAnalysis

def of (settings : Settings) (tables : Tables) (file : SourceFile) : FileAnalysis where
  markup := Structure.check settings tables file
  utilityClasses := UtilityClass.checkFile settings tables file
  tokens := DesignToken.check settings tables file

def violations (a : FileAnalysis) : List Violation := a.markup ++ a.utilityClasses.1 ++ a.tokens.1

end FileAnalysis
end QualityGate
