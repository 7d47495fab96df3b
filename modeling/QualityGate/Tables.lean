/-!
Word lists that the checks match against. The fixed ones are definitions of their own; the others
can be replaced one by one.
-/
namespace QualityGate

structure Tables where
  variants : List String
  colorProps : List String
  namedColors : List String
  spacingStyleProps : List String
  layoutAnimationProps : List String
  animationMethods : List String
  spacingUtilities : List String
  bodyTextElements : List String
  sectionElements : List String
  classAttributes : List String
  /-- Codes of the diagnostics that count as implicit `any`. -/
  implicitAnyCodes : List Nat
  deriving DecidableEq, Repr

namespace Tables

def default : Tables where
  variants :=
    ["sm", "md", "lg", "xl", "2xl", "3xl", "4xl", "5xl", "6xl", "hover", "focus", "active",
     "disabled", "group-hover", "group-focus", "focus-visible", "focus-within", "visited",
     "target", "first", "last", "odd", "even", "only-child", "only-of-type", "empty", "checked",
     "indeterminate", "invalid", "required", "valid", "read-only", "read-write",
     "placeholder-shown", "autofill", "enabled", "dark", "light"]
  colorProps :=
    ["color", "backgroundColor", "borderColor", "borderTopColor", "borderBottomColor",
     "borderLeftColor", "borderRightColor", "outlineColor", "textShadow", "boxShadow"]
  namedColors :=
    ["red", "blue", "green", "black", "white", "gray", "yellow", "orange", "purple", "pink",
     "brown", "cyan", "magenta", "lime", "navy", "teal", "olive", "maroon", "silver", "gold"]
  spacingStyleProps :=
    ["padding", "paddingTop", "paddingBottom", "paddingLeft", "paddingRight", "margin",
     "marginTop", "marginBottom", "marginLeft", "marginRight", "width", "height", "gap", "rowGap",
     "columnGap"]
  layoutAnimationProps :=
    ["width", "height", "margin", "marginTop", "marginBottom", "marginLeft", "marginRight",
     "padding", "paddingTop", "paddingBottom", "paddingLeft", "paddingRight", "top", "left",
     "right", "bottom"]
  animationMethods :=
    ["to", "from", "fromTo"]
  spacingUtilities :=
    ["py", "px", "gap", "space-y", "space-x", "mt", "mb", "ml", "mr", "pt", "pb", "pl", "pr"]
  bodyTextElements :=
    ["p", "span", "div", "label", "li", "td", "th"]
  sectionElements :=
    ["Section", "section"]
  classAttributes :=
    ["className", "class"]
  implicitAnyCodes := [7005, 7006, 7008, 7009, 7019, 7031]

/-- Named text sizes in ascending order. -/
def textSizes : List String :=
  ["xs", "sm", "base", "lg", "xl", "2xl", "3xl", "4xl", "5xl", "6xl", "7xl", "8xl", "9xl"]

/-- The rank of a named text size, from 1 on. -/
def textSizeRank? (size : String) : Option Nat :=
  (textSizes.findIdx? (· == size)).map (· + 1)

def tokenColorProps : List String := ["color", "backgroundColor", "borderColor", "fill", "stroke"]

def tokenObjects : List String := ["tokens", "token"]

end Tables
end QualityGate
