/-!
The rules of the gate, with what the catalog says of each.
-/
namespace QualityGate

inductive Severity
  | error
  | warning
  deriving DecidableEq, Repr

def Severity.name : Severity → String
  | error => "error"
  | warning => "warning"

inductive Rule
  | noInlineStyles | noHardcodedColors | noHardcodedPx | noLayoutAnimation | noGsapFrom
  | noTransitionAll | sectionNeedsId | maxChildrenPerSection | componentDepthCheck
  | maxContainerVariants | spacingVariance | noArbitraryValues | maxGridCols | fontVariantLimit
  | textHierarchyCheck | noAnyType | noImplicitAny | noUnusedImports | noDefaultExportAnon
  | noDeepNesting | noPropDrilling | strictModeCheck | noDuplicatedTypes | noCircularImports
  | circularDependency | deepImportChain | primitivesNotUsed | primitivesOverwritten
  | duplicateImport | hardcodedDuration | hardcodedEasing | hardcodedColorInJsx
  | tokenDefinedNotUsed | parseError | analyzerError
  deriving DecidableEq, Repr

namespace Rule

def id : Rule → String
  | noInlineStyles => "NO_INLINE_STYLES"
  | noHardcodedColors => "NO_HARDCODED_COLORS"
  | noHardcodedPx => "NO_HARDCODED_PX"
  | noLayoutAnimation => "NO_LAYOUT_ANIMATION"
  | noGsapFrom => "NO_GSAP_FROM"
  | noTransitionAll => "NO_TRANSITION_ALL"
  | sectionNeedsId => "SECTION_NEEDS_ID"
  | maxChildrenPerSection => "MAX_CHILDREN_PER_SECTION"
  | componentDepthCheck => "COMPONENT_DEPTH_CHECK"
  | maxContainerVariants => "MAX_CONTAINER_VARIANTS"
  | spacingVariance => "SPACING_VARIANCE"
  | noArbitraryValues => "NO_ARBITRARY_VALUES"
  | maxGridCols => "MAX_GRID_COLS"
  | fontVariantLimit => "FONT_VARIANT_LIMIT"
  | textHierarchyCheck => "TEXT_HIERARCHY_CHECK"
  | noAnyType => "NO_ANY_TYPE"
  | noImplicitAny => "NO_IMPLICIT_ANY"
  | noUnusedImports => "NO_UNUSED_IMPORTS"
  | noDefaultExportAnon => "NO_DEFAULT_EXPORT_ANON"
  | noDeepNesting => "NO_DEEP_NESTING"
  | noPropDrilling => "NO_PROP_DRILLING"
  | strictModeCheck => "STRICT_MODE_CHECK"
  | noDuplicatedTypes => "NO_DUPLICATED_TYPES"
  | noCircularImports => "NO_CIRCULAR_IMPORTS"
  | circularDependency => "CIRCULAR_DEPENDENCY"
  | deepImportChain => "DEEP_IMPORT_CHAIN"
  | primitivesNotUsed => "PRIMITIVES_NOT_USED"
  | primitivesOverwritten => "PRIMITIVES_OVERWRITTEN"
  | duplicateImport => "DUPLICATE_IMPORT"
  | hardcodedDuration => "HARDCODED_DURATION"
  | hardcodedEasing => "HARDCODED_EASING"
  | hardcodedColorInJsx => "HARDCODED_COLOR_IN_JSX"
  | tokenDefinedNotUsed => "TOKEN_DEFINED_NOT_USED"
  | parseError => "PARSE_ERROR"
  | analyzerError => "ANALYZER_ERROR"

def severity : Rule → Severity
  | noHardcodedPx | maxChildrenPerSection | componentDepthCheck | maxGridCols
  | fontVariantLimit | noUnusedImports | noDefaultExportAnon | noDeepNesting | noPropDrilling
  | noDuplicatedTypes | deepImportChain | primitivesNotUsed | primitivesOverwritten
  | duplicateImport | tokenDefinedNotUsed | analyzerError => .warning
  | _ => .error

/-- The part of the gate that looks for breaches of the rule. -/
def analyzer : Rule → String
  | noInlineStyles | noHardcodedColors | noHardcodedPx | noLayoutAnimation | noGsapFrom
  | noTransitionAll | sectionNeedsId | maxChildrenPerSection | componentDepthCheck => "structural"
  | maxContainerVariants | spacingVariance | noArbitraryValues | maxGridCols
  | fontVariantLimit | textHierarchyCheck => "utility-classes"
  | noAnyType | noImplicitAny | noUnusedImports | noDefaultExportAnon | noDeepNesting
  | noPropDrilling | strictModeCheck | noDuplicatedTypes | noCircularImports => "semantic"
  | circularDependency | deepImportChain | primitivesNotUsed | primitivesOverwritten
  | duplicateImport => "import-graph"
  | hardcodedDuration | hardcodedEasing | hardcodedColorInJsx | tokenDefinedNotUsed => "tokens"
  | parseError | analyzerError => "engine"

def description : Rule → String
  | noInlineStyles => "style=\x7b\x7b...\x7d\x7d object literals (display: none excepted)"
  | noHardcodedColors => "literal hex/rgb/hsl/named colors in color props"
  | noHardcodedPx => "literal px spacing in style objects (0px/1px excepted)"
  | noLayoutAnimation => "animation calls tweening layout properties"
  | noGsapFrom => "any call to the animation library's from()"
  | noTransitionAll => "transition: all in strings or style objects"
  | sectionNeedsId => "<section>/<Section> without an id attribute"
  | maxChildrenPerSection => "too many direct children in a section"
  | componentDepthCheck => "JSX element nesting too deep"
  | maxContainerVariants => "too many distinct max-w-* values"
  | spacingVariance => "too many distinct spacing utilities"
  | noArbitraryValues => "bracketed arbitrary utility values"
  | maxGridCols => "grid-cols-N above the density limit"
  | fontVariantLimit => "too many distinct text sizes"
  | textHierarchyCheck => "hero-scale text size on body-text elements"
  | noAnyType => "explicit any annotations"
  | noImplicitAny => "implicit any diagnostics"
  | noUnusedImports => "imported bindings never referenced"
  | noDefaultExportAnon => "anonymous or aliased default exports"
  | noDeepNesting => "functions nested too deep"
  | noPropDrilling => "props forwarded through too many levels"
  | strictModeCheck => "project config missing or not strict"
  | noDuplicatedTypes => "structurally identical type declarations"
  | noCircularImports => "file sits on an import cycle"
  | circularDependency => "distinct import cycles in the project"
  | deepImportChain => "longest import chain above the limit"
  | primitivesNotUsed => "primitives directory never imported"
  | primitivesOverwritten => "primitives re-exported or wrapped"
  | duplicateImport => "module imported by too many files"
  | hardcodedDuration => "numeric duration in animation config"
  | hardcodedEasing => "string easing in animation config"
  | hardcodedColorInJsx => "color literal instead of a design token"
  | tokenDefinedNotUsed => "exported token never referenced"
  | parseError => "file could not be parsed"
  | analyzerError => "an analyzer faulted on a file"

def catalog : List Rule :=
  [.noInlineStyles, .noHardcodedColors, .noHardcodedPx, .noLayoutAnimation, .noGsapFrom,
   .noTransitionAll, .sectionNeedsId, .maxChildrenPerSection, .componentDepthCheck,
   .maxContainerVariants, .spacingVariance, .noArbitraryValues, .maxGridCols, .fontVariantLimit,
   .textHierarchyCheck, .noAnyType, .noImplicitAny, .noUnusedImports, .noDefaultExportAnon,
   .noDeepNesting, .noPropDrilling, .strictModeCheck, .noDuplicatedTypes, .noCircularImports,
   .circularDependency, .deepImportChain, .primitivesNotUsed, .primitivesOverwritten,
   .duplicateImport, .hardcodedDuration, .hardcodedEasing, .hardcodedColorInJsx,
   .tokenDefinedNotUsed, .parseError, .analyzerError]

end Rule
end QualityGate
