import QualityGate.Settings
import QualityGate.Toml

/-!
Settings from a document. What the document leaves out keeps its default, and what it says beyond
the settings is passed over; a value of the wrong type makes it unusable.
-/
namespace QualityGate

open Toml (Value Table)

def valueOr {α : Type} (default : α) (read : Value → Option α) : Option Value → Option α
  | none => some default
  | some v => read v

def readNat (max : Nat) : Value → Option Nat
  | .integer n => if 0 ≤ n && n ≤ (max : Int) then some n.toNat else none
  | _ => none

def readText : Value → Option String
  | .string s => some s
  | _ => none

def readTexts : Value → Option (List String)
  | .array items => items.mapM readText
  | _ => none

namespace Thresholds

def names : List String :=
  ["max_section_children", "max_component_depth", "max_function_nesting", "max_prop_drilling",
   "max_container_variants", "max_spacing_variants", "max_grid_cols", "max_font_sizes",
   "body_text_max_rank", "max_import_depth", "max_import_fan_in"]

def ofTable? (t : Table) : Option Thresholds := do
  let limit (name : String) (default : Nat) :=
    valueOr default (readNat (Nat.pow 2 64 - 1)) (t.get? name)
  let d := Thresholds.default
  return {
    maxSectionChildren := ← limit "max_section_children" d.maxSectionChildren
    maxComponentDepth := ← limit "max_component_depth" d.maxComponentDepth
    maxFunctionNesting := ← limit "max_function_nesting" d.maxFunctionNesting
    maxPropDrilling := ← limit "max_prop_drilling" d.maxPropDrilling
    maxContainerVariants := ← limit "max_container_variants" d.maxContainerVariants
    maxSpacingVariants := ← limit "max_spacing_variants" d.maxSpacingVariants
    maxGridCols := ← valueOr d.maxGridCols (readNat (Nat.pow 2 32 - 1)) (t.get? "max_grid_cols")
    maxFontSizes := ← limit "max_font_sizes" d.maxFontSizes
    bodyTextMaxRank := ← limit "body_text_max_rank" d.bodyTextMaxRank
    maxImportDepth := ← limit "max_import_depth" d.maxImportDepth
    maxImportFanIn := ← limit "max_import_fan_in" d.maxImportFanIn }

/-- Limits by name, or in their order. -/
def ofValue? : Value → Option Thresholds
  | .table t => ofTable? t
  | .array items => ofTable? (names.zip items)
  | .moment => some .default
  | _ => none

end Thresholds

namespace Settings

def ofTable? (t : Table) : Option Settings := do
  let d := Settings.default
  return {
    thresholds := ← valueOr d.thresholds Thresholds.ofValue? (t.get? "thresholds")
    ignoreDirs := ← valueOr d.ignoreDirs readTexts (t.get? "ignore_dirs")
    animationObjects := ← valueOr d.animationObjects readTexts (t.get? "animation_objects")
    classHelpers := ← valueOr d.classHelpers readTexts (t.get? "class_helpers")
    primitivesDir := ← valueOr d.primitivesDir readText (t.get? "primitives_dir")
    tokensFileNames := ← valueOr d.tokensFileNames readTexts (t.get? "tokens_file_names") }

end Settings
end QualityGate
