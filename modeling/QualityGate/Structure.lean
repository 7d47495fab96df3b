import QualityGate.NodeRule
import QualityGate.Color
import QualityGate.Text.Digit

/-!
Rules on the markup of components: inline styles, literal colors and lengths, animated layout,
sections and nesting.
-/
namespace QualityGate.Structure

open Syntax

def attributeLiteral? (file : SourceFile) (value : Node) : Option String :=
  match value.kind with
  | .string => file.stringValue? value
  | .jsxExpression => value.parts.head?.bind fun inner => file.literalValue? inner.unwrapped
  | _ => none

/-- The object literal that an attribute has as its value. -/
def attributeObject? (value : Node) : Option Node :=
  if value.kind = .jsxExpression then
    (value.parts.head?.map Node.unwrapped).filter (·.kind = .object)
  else none

/-- Object and method of a call such as `gsap.to(…)`. -/
def animationCall? (scope : Scope) (call : Node) : Option (String × String) := do
  let callee ← call.child? .function
  guard (callee.kind = .memberExpression)
  let object ← callee.child? .object
  let property ← callee.child? .property
  guard (object.kind = .identifier)
  let name := scope.file.textOf object
  let method := scope.file.textOf property
  guard (scope.settings.animationObjects.contains name &&
    scope.tables.animationMethods.contains method)
  return (name, method)

/-- The object that says what is animated: the third argument of `fromTo`, the second of other
methods. -/
def animationVars? (call : Node) (method : String) : Option Node := do
  let arguments ← call.child? .arguments
  let vars ← arguments.parts[if method = "fromTo" then 2 else 1]?
  guard (vars.unwrapped.kind = .object)
  return vars.unwrapped

/-- An object with `display: 'none'` and nothing else. -/
def onlyHides (file : SourceFile) (object : Node) : Bool :=
  match object.parts with
  | [only] => only.kind = .pair && file.propertyKey? only == some "display"
      && (only.child? .value).bind file.stringValue? == some "none"
  | _ => false

def inlineStyles : NodeRule where
  interested kind := kind = .jsxAttribute
  check scope _ n :=
    let (name, value) := scope.file.nameAndValue n
    match name == some "style", value.bind attributeObject? with
    | true, some object =>
      if onlyHides scope.file object then []
      else [(Violation.error .noInlineStyles
        "Inline style objects should not be used. Use CSS classes instead.").located
          (scope.file.location n)]
    | _, _ => []

/-- Property, description and value of an attribute or a pair. -/
def colored? (file : SourceFile) (n : Node) : Option (String × String × Option String) :=
  if n.kind = .jsxAttribute then
    let (name, value) := file.nameAndValue n
    name.map fun name => (name, name, value.bind (attributeLiteral? file))
  else
    (file.propertyKey? n).map fun key =>
      (key, "style." ++ key, (n.child? .value).bind file.literalValue?)

def hardcodedColors : NodeRule where
  interested kind := kind = .jsxAttribute || kind = .pair
  check scope _ n :=
    match colored? scope.file n with
    | some (property, origin, some value) =>
      if scope.tables.colorProps.contains property
          && !Text.contains "var(--".toList value.toList && Color.isColor scope.tables value then
        [(Violation.error .noHardcodedColors ("Hardcoded color value \"" ++ value
          ++ "\" found in " ++ origin
          ++ ". Use CSS custom properties instead.")).located (scope.file.location n)]
      else []
    | _ => []

def pixels? (value : List Char) : Option (List Char) :=
  let digits := value.takeWhile Text.isDecimal
  if !digits.isEmpty && value.drop digits.length == ['p', 'x'] then some digits else none

/-- The number that the digits denote. Numbers beyond 64 bits, and digits other than those of ASCII,
count as the largest number of 64 bits. -/
def amount (digits : List Char) : Nat :=
  ((Text.number? digits).filter (· < Nat.pow 2 64)).getD (Nat.pow 2 64 - 1)

/-- Lengths of no and one pixel are no matter of design. -/
def isHairline (digits : List Char) : Bool := amount digits ≤ 1

def hardcodedPx : NodeRule where
  interested kind := kind = .pair
  check scope _ n :=
    match scope.file.propertyKey? n, (n.child? .value).bind scope.file.literalValue? with
    | some key, some value =>
      match scope.tables.spacingStyleProps.contains key, pixels? value.toList with
      | true, some digits =>
        if isHairline digits then []
        else [(Violation.warning .noHardcodedPx ("Hardcoded pixel value \"" ++ value
          ++ "\" in " ++ key
          ++ ". Consider using design tokens or CSS variables.")).located (scope.file.location n)]
      | _, _ => []
    | _, _ => []

def layoutAnimation : NodeRule where
  interested kind := kind = .callExpression
  check scope _ n :=
    match animationCall? scope n with
    | none => []
    | some (object, method) =>
      let layout := match animationVars? n method with
        | some vars => ((scope.file.entries vars).map (·.1)).filter
            scope.tables.layoutAnimationProps.contains
        | none => []
      if layout.isEmpty then []
      else [(Violation.error .noLayoutAnimation (object ++ "." ++ method
        ++ "() animates layout properties ["
        ++ ", ".intercalate layout ++
          "]. Use transform instead to avoid layout thrashing.")).located
          (scope.file.location n)]

def animationFrom : NodeRule where
  interested kind := kind = .callExpression
  check scope _ n :=
    match animationCall? scope n with
    | some (object, "from") =>
      [(Violation.error .noGsapFrom (object ++ ".from() should not be used. Use " ++ object
        ++ ".set() + "
        ++ object ++
          ".to() instead for better control and clarity.")).located (scope.file.location n)]
    | _ => []

def beginsTransitionAll (cs : List Char) : Bool :=
  match Text.afterFolded? "transition".toList cs with
  | some rest =>
    match rest.dropWhile Text.isBlank with
    | ':' :: rest => (Text.afterFolded? "all".toList (rest.dropWhile Text.isBlank)).isSome
    | _ => false
  | none => false

/-- The word `all` behind blanks, ignoring case. -/
def beginsAll (cs : List Char) : Bool :=
  match Text.afterFolded? "all".toList (cs.dropWhile Text.isBlank) with
  | some rest => Text.endsWord rest
  | none => false

def transitionAll : NodeRule where
  interested kind := kind = .string || kind = .templateString || kind = .pair
  check scope _ n :=
    let hit :=
      if n.kind = .pair then
        scope.file.propertyKey? n == some "transition"
          && (((n.child? .value).bind scope.file.literalValue?).map fun v => beginsAll v.toList) ==
            some true
      else ((scope.file.literalValue? n).map fun v =>
        Text.anySuffix beginsTransitionAll v.toList) == some true
    if hit then
      [(Violation.error .noTransitionAll
        "Avoid \"transition: all\". Specify exact properties to transition instead.").located
          (scope.file.location n)]
    else []

def sectionNeedsId : NodeRule where
  interested kind := kind.isTag
  check scope _ n :=
    match scope.file.tagName? n with
    | some name =>
      if scope.tables.sectionElements.contains name && !scope.file.hasAttribute n "id" then
        [(Violation.error .sectionNeedsId ("<" ++ name
          ++ "> element must have an id attribute for accessibility and tracking.")).located
            (scope.file.location n)]
      else []
    | none => []

/-- Children that show something of their own: elements and expressions. -/
def childCount (element : Node) : Nat :=
  (element.parts.filter fun c => c.kind.isElement || c.kind = .jsxExpression).length

def maxSectionChildren : NodeRule where
  interested kind := kind = .jsxElement
  check scope _ n :=
    match n.child? .openTag with
    | none => []
    | some tag =>
      match scope.file.tagName? tag with
      | none => []
      | some name =>
        let max := scope.settings.thresholds.maxSectionChildren
        if scope.tables.sectionElements.contains name && childCount n > max then
          [(Violation.warning .maxChildrenPerSection ("<" ++ name ++ "> has "
            ++ toString (childCount n)
            ++ " direct children, exceeds max of " ++ toString max
            ++ ". Consider breaking into sub-components.")).located (scope.file.location tag)]
        else []

def componentDepth : NodeRule where
  interested kind := kind.isElement
  check scope depth n :=
    let max := scope.settings.thresholds.maxComponentDepth
    if depth > max then
      let anchor := if n.kind = .jsxElement then (n.child? .openTag).getD n else n
      [(Violation.warning .componentDepthCheck ("JSX nesting depth is " ++ toString depth
        ++ ", exceeds max of " ++ toString max
        ++ ". Consider extracting components to reduce nesting.")).located
          (scope.file.location anchor)]
    else []

def rules : List NodeRule :=
  [inlineStyles, hardcodedColors, hardcodedPx, layoutAnimation, animationFrom, transitionAll,
    sectionNeedsId, maxSectionChildren, componentDepth]

def check (settings : Settings) (tables : Tables) (file : SourceFile) : List Violation :=
  NodeRule.run rules ⟨file, settings, tables⟩

end QualityGate.Structure
