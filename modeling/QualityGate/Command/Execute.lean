import QualityGate.Command.Help
import QualityGate.Command.Parse
import QualityGate.Gate
import QualityGate.Report.Document
import QualityGate.Report.Sarif

/-!
Commands as they are carried out on a disk.
-/
namespace QualityGate

/-- What a command leaves behind: its exit code, what it prints, and the first line on what went
wrong. -/
structure Outcome where
  code : Nat
  output : String
  error : Option String
  deriving DecidableEq, Repr

namespace Outcome

def failure (colors : Bool) (message : String) : Outcome :=
  ⟨2, "", some ((Style.strong .red).paint colors "error:" ++ " " ++ message)⟩

end Outcome

/-- The cause is told where it is not the text of the file. -/
def GateFailure.explanation (disk : Disk) : GateFailure → String
  | .settings (.unreadable path) =>
    match disk.read path with
    | .error cause => "reading " ++ path.text ++ ": " ++ cause.message
    | .ok _ => "reading " ++ path.text
  | failure => failure.message

namespace Command

def render (colors : Bool) (format : OutputFormat) (filter : SeverityFilter) (timestamp : String)
    (r : Report) : String :=
  match format with
  | .human => r.renderHuman colors filter
  | .json => r.renderJson timestamp
  | .sarif => r.renderSarif

def dropLineEnds (text : String) : String :=
  String.ofList (text.toList.reverse.dropWhile (· = '\n')).reverse

/-- 1 where a breach is an error. -/
def exitCode (r : Report) : Nat := if r.isBlocked then 1 else 0

/-- Prints the report on a project. -/
def runGate (disk : Disk) (colors : Bool) (timestamp : String) (dir : Path) (format : OutputFormat)
    (filter : SeverityFilter) : Outcome :=
  if !disk.isFolder dir then .failure colors ("Project directory not found: " ++ dir.text)
  else match Gate.run disk dir with
    | .error cause => .failure colors (cause.explanation disk)
    | .ok report =>
      ⟨exitCode report, dropLineEnds (render colors format filter timestamp report) ++ "\n", none⟩

def padded (width : Nat) (text : String) : String :=
  text ++ String.ofList (List.replicate (width - text.length) ' ')

def ruleLine (colors : Bool) (r : Rule) : String :=
  let level := match r.severity with
    | .error => (Style.plain .red).paint colors (padded 12 "[ERROR]")
    | .warning => (Style.plain .yellow).paint colors (padded 12 "[WARNING]")
  "  " ++ (Style.plain .yellow).paint colors (padded 28 r.id) ++ " " ++ level ++ " " ++
    r.description ++ "\n"

/-- The lines of rules, with a heading where the analyzer changes; `current` is that of the last
rule. -/
def ruleLines (colors : Bool) (current : String) : List Rule → String
  | [] => ""
  | r :: rs =>
    (if r.analyzer = current then "" else "\n  "
      ++ (Style.plain .cyan).paint colors r.analyzer ++ "\n")
      ++ ruleLine colors r ++ ruleLines colors r.analyzer rs

def thresholdLines (t : Thresholds) : String :=
  String.join ([("max_section_children", t.maxSectionChildren),
    ("max_component_depth", t.maxComponentDepth), ("max_function_nesting", t.maxFunctionNesting),
    ("max_prop_drilling", t.maxPropDrilling), ("max_container_variants", t.maxContainerVariants),
    ("max_spacing_variants", t.maxSpacingVariants), ("max_grid_cols", t.maxGridCols),
    ("max_font_sizes", t.maxFontSizes), ("body_text_max_rank", t.bodyTextMaxRank),
    ("max_import_depth", t.maxImportDepth),
    ("max_import_fan_in", t.maxImportFanIn)].map fun (name, n) =>
      "   " ++ name ++ " = " ++ toString n ++ "\n")

def listRules (disk : Disk) (colors : Bool) (dir : Path) : Outcome :=
  match Settings.load disk dir with
  | .error cause => .failure colors ((GateFailure.settings cause).explanation disk)
  | .ok settings =>
    ⟨0, "\n" ++ (Style.mk true none).paint colors "Gate rules:" ++ "\n"
      ++ ruleLines colors "" Rule.catalog ++ "\n"
      ++ (if Settings.hasFile disk dir then
        "   Info: thresholds loaded from " ++ Settings.fileName ++ ":\n"
      else "   Info: no " ++ Settings.fileName ++ " found. Using defaults:\n")
      ++ "   [thresholds]\n" ++ thresholdLines settings.thresholds, none⟩

/-- Carries out what the arguments behind the name of the program ask for. -/
def execute (disk : Disk) (colors : Bool) (timestamp : String) (args : List String) : Outcome :=
  match parse args with
  | .ok ⟨_, .run dir json format filter⟩ =>
    runGate disk colors timestamp ⟨dir⟩ (if json then .json else format) filter
  | .ok ⟨_, .rules dir⟩ => listRules disk colors ⟨dir⟩
  | .error (.help topic) => ⟨0, topic.helpText, none⟩
  | .error .version => ⟨0, "brudi-gate " ++ Report.version ++ "\n", none⟩
  | .error e =>
    match e.message? with
    | some message => .failure colors message
    | none => ⟨2, "", none⟩

end Command
end QualityGate
