/-!
The settings of a project: limits, and the names the gate goes by.
-/
namespace QualityGate

structure Thresholds where
  maxSectionChildren : Nat
  maxComponentDepth : Nat
  maxFunctionNesting : Nat
  maxPropDrilling : Nat
  maxContainerVariants : Nat
  maxSpacingVariants : Nat
  maxGridCols : Nat
  maxFontSizes : Nat
  /-- The highest rank of a text size that body text may have. -/
  bodyTextMaxRank : Nat
  maxImportDepth : Nat
  maxImportFanIn : Nat
  deriving DecidableEq, Repr

def Thresholds.default : Thresholds := ⟨8, 6, 3, 3, 4, 6, 4, 6, 5, 4, 5⟩

structure Settings where
  thresholds : Thresholds
  /-- Directories that are not searched. -/
  ignoreDirs : List String
  animationObjects : List String
  /-- Functions whose arguments are class lists. -/
  classHelpers : List String
  primitivesDir : String
  tokensFileNames : List String
  deriving DecidableEq, Repr

namespace Settings

def default : Settings where
  thresholds := .default
  ignoreDirs := ["node_modules", ".next", ".brudi", "dist", "build", "out", "coverage", "target"]
  animationObjects := ["gsap"]
  classHelpers := ["cn", "clsx", "twMerge"]
  primitivesDir := "src/primitives"
  tokensFileNames := ["tokens.ts", "tokens.js"]

end Settings
end QualityGate
