import QualityGate.Violation
import QualityGate.Text.Blank
import QualityGate.Syntax.Node.Cursor

/-!
Shapes of type declarations: what is written besides the name, without regard to blanks, comments
and separators. Two declarations of one shape are one type under two names.
-/
namespace QualityGate.TypeShape

open Syntax

/-- Where a reader stands: in plain text, in a comment to the end of the line, or in a comment in
stars, with whether a star came last. -/
inductive Mode
  | plain
  | line
  | starred (star : Bool)
  deriving DecidableEq

def isSeparator (c : Char) : Bool := c = ';' || c = ','

def isMark (c : Char) : Bool :=
  ['{', '}', '(', ')', '[', ']', '<', '>', ':', '|', '&', '?', '='].contains c

/-- Comments and separators become blanks, and marks stand between blanks. -/
def spaced : Mode → List Char → List Char
  | _, [] => []
  | .plain, '/' :: '/' :: cs => ' ' :: spaced .line cs
  | .plain, '/' :: '*' :: cs => ' ' :: spaced (.starred false) cs
  | .plain, c :: cs =>
    if isSeparator c then ' ' :: spaced .plain cs
    else if isMark c then ' ' :: c :: ' ' :: spaced .plain cs
    else c :: spaced .plain cs
  | .line, c :: cs => spaced (if c = '\n' then .plain else .line) cs
  | .starred star, c :: cs =>
    spaced (if star && c = '/' then .plain else .starred (c = '*')) cs

/-- The words and marks of a shape with one blank between them. -/
def normalize (cs : List Char) : List Char :=
  (List.intersperse [' '] (Text.words (spaced .plain cs))).flatten

/-- Type parameters, heritage and body of a declaration. -/
def ofDeclaration (file : SourceFile) (n : Node) : List Char :=
  normalize ((n.parts.filter (·.role != some .name)).flatMap fun part =>
    (file.textOf part).toList ++ [' '])

abbrev Seen := List (List Char × Nat)

def repeats (file : SourceFile) : Seen → List Node → List Violation
  | _, [] => []
  | seen, n :: ns =>
    match n.child? .name with
    | none => repeats file seen ns
    | some name =>
      let shape := ofDeclaration file n
      let place := file.location n
      match seen.find? (·.1 == shape) with
      | some (_, line) =>
        (Violation.warning .noDuplicatedTypes ("Type \"" ++ file.textOf name
          ++ "\" is identical to type at line "
          ++ toString line)).located place :: repeats file seen ns
      | none => repeats file ((shape, place.line) :: seen) ns

def isDeclaration (n : Node) : Bool :=
  n.kind = .typeAliasDeclaration || n.kind = .interfaceDeclaration

def check (file : SourceFile) : List Violation :=
  repeats file [] (file.root.preorder.filter isDeclaration)

end QualityGate.TypeShape
