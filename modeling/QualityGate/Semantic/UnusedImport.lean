import QualityGate.Imports
import QualityGate.Violation

/-!
Imported names that the rest of the file does not refer to.
-/
namespace QualityGate.UnusedImport

open Syntax

def referenced (file : SourceFile) : List String :=
  let statements := file.root.parts.filter (·.kind != .importStatement)
  ((statements.flatMap (Node.places [file.root])).filter SourceFile.isReference).map fun p =>
    file.textOf p.node

def check (file : SourceFile) : List Violation :=
  match Import.ofFile file with
  | [] => []
  | imports =>
    let used := referenced file
    ((imports.flatMap (·.bindings)).filter fun b => !used.contains b.bound).map fun b =>
      (Violation.warning .noUnusedImports ("Import \"" ++ b.bound ++
        "\" is not used")).located b.place

end QualityGate.UnusedImport
