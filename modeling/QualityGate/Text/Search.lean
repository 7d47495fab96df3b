import QualityGate.Text.Blank
import QualityGate.Text.Letter

/-!
Looking for short patterns in a text.
-/
namespace QualityGate.Text

/-- Whether some end part of the text satisfies `p`. -/
def anySuffix (p : List Char → Bool) : List Char → Bool
  | [] => p []
  | c :: cs => p (c :: cs) || anySuffix p cs

def contains (part cs : List Char) : Bool := anySuffix (part.isPrefixOf ·) cs

def after? : List Char → List Char → Option (List Char)
  | [], cs => some cs
  | p :: ps, c :: cs => if p = c then after? ps cs else none
  | _ :: _, [] => none

/-- The lower-case ASCII letter that a character stands for when case is ignored. -/
def folded (c : Char) : Char :=
  if c = 'ſ' then 's' else if c.toNat = 0x212a then 'k' else c.toLower

/-- `after?`, ignoring case; `part` is in lower case. -/
def afterFolded? (part cs : List Char) : Option (List Char) :=
  match part, cs with
  | [], cs => some cs
  | p :: ps, c :: cs => if p = folded c then afterFolded? ps cs else none
  | _ :: _, [] => none

def endsWord (cs : List Char) : Bool :=
  match cs with
  | [] => true
  | c :: _ => !isWordCharacter c

end QualityGate.Text
