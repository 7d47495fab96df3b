import QualityGate.CompilerOptions
import QualityGate.Disk
import QualityGate.Json.Reader
import QualityGate.Json.Relaxed

/-!
Configuration files of projects: which one a file answers to, and the options it puts in effect.
-/
namespace QualityGate

inductive ConfigFailure
  | unreadable (path : Path)
  | malformed (path : Path)
  deriving DecidableEq, Repr

def ConfigFailure.message : ConfigFailure → String
  | unreadable path => "reading " ++ path.text
  | malformed path => "parsing " ++ path.text

/-- A configuration file as it is written. -/
structure ConfigDocument where
  /-- The files it extends. -/
  bases : List String
  declared : CompilerOptions.Declared

namespace ConfigDocument

def readBases : Json → Option (List String)
  | .string s => s.map fun s => [s]
  | .array items => if (Json.array items).haveText then some (items.filterMap Json.text?) else none
  | v => if v.haveText then some [] else none

def ofValues? (bases options : Option Json) : Option ConfigDocument := do
  return {
    bases := (← Json.reading readBases bases).getD []
    declared := (← Json.reading CompilerOptions.Declared.ofJson? options).getD .nothing }

/-- Reads an object with two entries that matter, or a list of their values in order. -/
def ofJson? : Json → Option ConfigDocument
  | .object entries => do
    guard (Json.haveKeys entries)
    ofValues? (← Json.field? entries "extends") (← Json.field? entries "compilerOptions")
  | .array [] => ofValues? none none
  | .array [a] => ofValues? a.present? none
  | .array [a, b] => ofValues? a.present? b.present?
  | _ => none

def parse? (text : String) : Option ConfigDocument :=
  (Json.read? (Json.strip text.toList)).bind ofJson?

/-- The files that a file in `dir` extends. Only paths are followed, no packages. -/
def targets (disk : Disk) (dir : Path) (bases : List String) : List Path :=
  (bases.filter fun s => s.toList.head? == some '.' || s.toList.head? == some '/').map fun s =>
    if disk.isFile (dir.join s) || s.endsWith ".json" then dir.join s else dir.join (s ++ ".json")

end ConfigDocument

structure ProjectConfig where
  path : Path
  options : CompilerOptions
  deriving DecidableEq, Repr

namespace ProjectConfig

def fileNames : List String := ["tsconfig.json", "jsconfig.json"]

def maxExtensions : Nat := 8

/-- The options that a file puts in effect, following at most `depth` steps of extension. Files it
extends that are no configurations are passed over, and of the others the last one comes first. -/
def loadOptions (disk : Disk) : Nat → Path → Except ConfigFailure CompilerOptions
  | depth, path =>
    match disk.read path with
    | .error _ => .error (.unreadable path)
    | .ok text =>
      match ConfigDocument.parse? text with
      | none => .error (.malformed path)
      | some document =>
        let dir := path.parent?.getD ⟨"."⟩
        let base := match depth with
          | 0 => CompilerOptions.none
          | depth + 1 =>
            (ConfigDocument.targets disk dir document.bases).foldl (fun base target =>
              match loadOptions disk depth target with
              | .ok options => options.extending base
              | .error _ => base) CompilerOptions.none
        .ok ((document.declared.options dir).extending base)

def load (disk : Disk) (path : Path) : Except ConfigFailure ProjectConfig :=
  (loadOptions disk maxExtensions path).map fun options => ⟨path, options⟩

def loadOrNothing (disk : Disk) (path : Path) : ProjectConfig :=
  match load disk path with
  | .ok config => config
  | .error _ => ⟨path, .none⟩

/-- The configuration file in a folder. -/
def inFolder? (disk : Disk) (dir : Path) : Option Path := (fileNames.map dir.join).find? disk.isFile

def nearestFrom (disk : Disk) (root : Path) : Nat → Path → Option Path
  | 0, _ => none
  | fuel + 1, dir =>
    match inFolder? disk dir with
    | some config => some config
    | none =>
      if dir.same root then none
      else match dir.parent? with
        | some parent => if parent.startsWith root then nearestFrom disk root fuel parent else none
        | none => none

/-- The nearest configuration file on the way from `start` up to `root`. -/
def nearest? (disk : Disk) (root start : Path) : Option Path :=
  nearestFrom disk root (start.components.length + 1) start

end ProjectConfig
end QualityGate
