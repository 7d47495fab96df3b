import QualityGate.Tables
import QualityGate.Text.Case
import QualityGate.Text.Search

/-!
Texts that are colors, or hold one.
-/
namespace QualityGate.Color

open Text

def isHex (c : Char) : Bool :=
  c.isDigit || ('a' ≤ c && c ≤ 'f') || ('A' ≤ c && c ≤ 'F')

/-- `#` and three or six hexadecimal digits. -/
def isHexColor : List Char → Bool
  | '#' :: cs => cs.all isHex && (cs.length = 3 || cs.length = 6)
  | _ => false

def functions : List (List Char) := ["rgb(", "rgba(", "hsl(", "hsla("].map String.toList

def isColor (tables : Tables) (value : String) : Bool :=
  let cs := value.toList
  isHexColor cs || functions.any (·.isPrefixOf cs)
    || tables.namedColors.contains (String.ofList (lower cs))

def beginsColor (cs : List Char) : Bool :=
  functions.any (·.isPrefixOf cs) ||
    match cs with
    | '#' :: rest => 3 ≤ rest.length && (rest.take 3).all isHex
    | _ => false

/-- Whether a reference to a variable begins at the front of the text, blanks allowed. -/
def beginsVariable (cs : List Char) : Bool :=
  match after? "var".toList cs with
  | some rest =>
    match rest.dropWhile isBlank with
    | '(' :: inner => "--".toList.isPrefixOf (inner.dropWhile isBlank)
    | _ => false
  | none => false

/-- A color that no variable stands for. -/
def hasLiteral (value : String) : Bool :=
  anySuffix beginsColor value.toList && !anySuffix beginsVariable value.toList

/-- The names in `var(--name)`, from left to right. -/
def variableNames : Nat → List Char → List (List Char)
  | _, [] => []
  | skip + 1, _ :: cs => variableNames skip cs
  | 0, c :: cs =>
    match after? "var(--".toList (c :: cs) with
    | none => variableNames 0 cs
    | some rest =>
      let name := rest.takeWhile (· != ')')
      if name.isEmpty || name.length = rest.length then variableNames 0 cs
      else name :: variableNames (name.length + 6) cs

end QualityGate.Color
