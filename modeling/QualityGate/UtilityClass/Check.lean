import QualityGate.Violation
import QualityGate.Text.Digit
import QualityGate.UtilityClass.Token
import QualityGate.UtilityClass.ClassString

/-!
Checks on the class lists of a file: variety of widths, spacings and text sizes, free values, grid
density and text sizes that do not suit their element.
-/
namespace QualityGate.UtilityClass

structure Metrics where
  uniqueSpacingValues : Nat
  uniqueMaxWValues : Nat
  uniqueFontSizes : Nat
  arbitraryValueCount : Nat
  maxGridCols : Nat
  deriving DecidableEq, Repr

namespace Metrics

def zero : Metrics := ⟨0, 0, 0, 0, 0⟩

/-- Of two files: the worse one, but free values add up. -/
def merge (a b : Metrics) : Metrics where
  uniqueSpacingValues := max a.uniqueSpacingValues b.uniqueSpacingValues
  uniqueMaxWValues := max a.uniqueMaxWValues b.uniqueMaxWValues
  uniqueFontSizes := max a.uniqueFontSizes b.uniqueFontSizes
  arbitraryValueCount := a.arbitraryValueCount + b.arbitraryValueCount
  maxGridCols := max a.maxGridCols b.maxGridCols

end Metrics

/-- A class list with its classes. -/
structure Entry where
  origin : ClassString
  tokens : List Token

/-- The number of columns a numeral stands for, where it fits into 32 bits. -/
def columns? (value : String) : Option Nat :=
  let digits := match value.toList with
    | '+' :: cs => cs
    | cs => cs
  (Text.number? digits).filter (· < Nat.pow 2 32)

/-- The columns of a grid class with a plain number. -/
def gridColumns? (t : Token) : Option Nat :=
  if t.utility = "grid-cols" && !t.arbitrary then columns? t.value else none

def maxWidths (all : List Token) : List String :=
  ((all.filter fun t => t.utility = "max-w" && !t.value.isEmpty).map (·.value)).eraseDups

def spacings (tables : Tables) (all : List Token) : List String :=
  ((all.filter fun t => tables.spacingUtilities.contains t.utility && !t.value.isEmpty &&
    t.value != "0").map
    fun t => t.utility ++ "-" ++ t.value).eraseDups

def fontSizes (all : List Token) : List String :=
  ((all.filter fun t => t.utility = "text" &&
    Tables.textSizes.contains t.value).map (·.value)).eraseDups

def exceeding (found limit : Nat) (breach : Violation) : List Violation :=
  if found > limit then [breach] else []

def checkToken (limits : Thresholds) (origin : ClassString) (t : Token) : List Violation :=
  (if t.arbitrary then
    [(Violation.error .noArbitraryValues
      ("Arbitrary value detected: " ++ t.raw ++
        ". Use design tokens instead.")).located origin.place]
  else []) ++
  match gridColumns? t with
  | some n =>
    if n > limits.maxGridCols then
      [(Violation.warning .maxGridCols
        ("Grid too dense (" ++ toString n ++ " columns). Consider reducing to "
          ++ toString limits.maxGridCols ++ " or fewer columns.")).located origin.place]
    else []
  | none => []

/-- The first class of the list with a named text size, and its rank. -/
def sized? (tokens : List Token) : Option (Token × Nat) :=
  (tokens.filter (·.utility = "text")).findSome? fun t =>
    (Tables.textSizeRank? t.value).map fun rank => (t, rank)

def checkHierarchy (limits : Thresholds) (tables : Tables) (e : Entry) : List Violation :=
  match e.origin.element, sized? e.tokens with
  | some element, some (t, rank) =>
    if tables.bodyTextElements.contains element && rank > limits.bodyTextMaxRank then
      [(Violation.error .textHierarchyCheck
        ("Body text (<" ++ element ++ ">) too large (text-" ++ t.value ++ ", scale "
          ++ toString rank
          ++ "). Use text-xl or smaller for body text.")).located e.origin.place]
    else []
  | _, _ => []

def entries (tables : Tables) (classes : List ClassString) : List Entry :=
  classes.map fun c => ⟨c, Token.ofClasses tables.variants c.value⟩

def metrics (tables : Tables) (all : List Token) : Metrics where
  uniqueSpacingValues := (spacings tables all).length
  uniqueMaxWValues := (maxWidths all).length
  uniqueFontSizes := (fontSizes all).length
  arbitraryValueCount := (all.filter (·.arbitrary)).length
  maxGridCols := (all.filterMap gridColumns?).foldl max 0

def check (settings : Settings) (tables : Tables) (classes : List ClassString) :
    List Violation × Metrics :=
  let limits := settings.thresholds
  let es := entries tables classes
  let all := es.flatMap (·.tokens)
  let m := metrics tables all
  (exceeding m.uniqueMaxWValues limits.maxContainerVariants
      (.error .maxContainerVariants ("Too many max-w-* variants (" ++ toString m.uniqueMaxWValues
        ++ "). Keep to "
        ++ toString limits.maxContainerVariants ++ " or fewer for consistency."))
    ++ exceeding m.uniqueSpacingValues limits.maxSpacingVariants
      (.error .spacingVariance ("Too many spacing variants (" ++ toString m.uniqueSpacingValues
        ++ "). Keep to "
        ++ toString limits.maxSpacingVariants ++ " or fewer for consistency."))
    ++ es.flatMap (fun e => e.tokens.flatMap (checkToken limits e.origin))
    ++ exceeding m.uniqueFontSizes limits.maxFontSizes
      (.warning .fontVariantLimit ("Too many font size variants (" ++ toString m.uniqueFontSizes
        ++ "). Limit to "
        ++ toString limits.maxFontSizes ++ " or fewer for better readability hierarchy."))
    ++ es.flatMap (checkHierarchy limits tables), m)

def checkFile (settings : Settings) (tables : Tables) (file : Syntax.SourceFile) :
    List Violation × Metrics :=
  let found := check settings tables (ClassString.ofFile file settings tables)
  (found.1.map (·.inFile file.path), found.2)

end QualityGate.UtilityClass
