import QualityGate.ProjectConfig
import QualityGate.Settings.Document
import QualityGate.Toml.Reader

/-!
The settings file of a project.
-/
namespace QualityGate.Settings

def fileName : String := ".brudirc.toml"

def hasFile (disk : Disk) (root : Path) : Bool := disk.isFile (root.join fileName)

/-- The settings of a project; without a file, the default ones. -/
def load (disk : Disk) (root : Path) : Except ConfigFailure Settings :=
  if !hasFile disk root then .ok .default
  else match disk.read (root.join fileName) with
    | .error _ => .error (.unreadable (root.join fileName))
    | .ok text =>
      match (Toml.read? text).bind ofTable? with
      | some settings => .ok settings
      | none => .error (.malformed (root.join fileName))

end QualityGate.Settings
