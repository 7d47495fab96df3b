import QualityGate.Semantic.AnyType
import QualityGate.Semantic.DefaultExport
import QualityGate.Semantic.Nesting
import QualityGate.Semantic.Program
import QualityGate.Semantic.PropDrilling
import QualityGate.Semantic.TypeShape
import QualityGate.Semantic.UnusedImport

/-!
All checks on the typed files of a project.
-/
namespace QualityGate.Semantic

open Syntax

/-- Implied `any` counts where the configuration of the file asks for it. -/
def implicitAny (tables : Tables) (program : Program) (file : SourceFile) : List Violation :=
  if ((program.configFor? file).map fun c => c.options.noImplicitAnyEnabled) == some true then
    AnyType.implicit file tables
  else []

def checkFile (settings : Settings) (tables : Tables) (program : Program) (file : SourceFile) :
    List Violation :=
  (AnyType.explicit file
    ++ implicitAny tables program file
    ++ UnusedImport.check file
    ++ DefaultExport.check file
    ++ Nesting.check settings file
    ++ PropDrilling.check settings file
    ++ TypeShape.check file
    ++ program.cycleBreach file).map (·.inFile file.path)

def check (settings : Settings) (tables : Tables) (program : Program) : List Violation :=
  program.strictness ++ program.files.flatMap (checkFile settings tables program)

end QualityGate.Semantic
