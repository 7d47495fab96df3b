import QualityGate.Glob
import QualityGate.Text.Blank

/-!
Ignore files: lines of patterns that exclude paths below their folder, or take an exclusion back.
-/
namespace QualityGate

structure IgnoreRule where
  pattern : List Glob.Item
  /-- Takes an exclusion back. -/
  keeps : Bool
  foldersOnly : Bool

inductive Verdict
  | ignored | kept
  deriving DecidableEq, Repr

namespace IgnoreRule

def verdict (r : IgnoreRule) : Verdict := if r.keeps then .kept else .ignored

def applies (r : IgnoreRule) (path : String) (folder : Bool) : Bool :=
  (folder || !r.foldersOnly) && Glob.accepts r.pattern path

def trimRight (cs : List Char) : List Char := (cs.reverse.dropWhile Text.isBlank).reverse

def ending (cs : List Char) : List Char := cs.reverse.take 2

/-- Drops a slash at the end and the backslash that may stand before it. -/
def dropSlash (cs : List Char) : List Char :=
  let cs := cs.dropLast
  if cs.getLast? == some '\\' then cs.dropLast else cs

/-- A pattern without a slash of its own matches in every folder, and one for everything below a
folder leaves out the folder itself. -/
def widen (anchored : Bool) (cs : List Char) : List Char :=
  let cs := if !anchored && !cs.contains '/' &&
    cs != ['*', '*'] then '*' :: '*' :: '/' :: cs else cs
  if cs.reverse.take 3 == ['*', '*', '/'] then cs ++ ['/', '*'] else cs

/-- The rule of a line, if it has a meaning. -/
def ofLine? (line : List Char) : Option IgnoreRule :=
  if line.head? == some '#' then none
  else
    let line := if ending line == [' ', '\\'] then line else trimRight line
    if line.isEmpty then none
    else
      let (keeps, anchored, body) := match line with
        | '\\' :: '!' :: _ | '\\' :: '#' :: _ => (false, false, line.drop 1)
        | '!' :: '/' :: cs => (true, true, cs)
        | '!' :: cs => (true, false, cs)
        | '/' :: cs => (false, true, cs)
        | cs => (false, false, cs)
      let foldersOnly := body.getLast? == some '/'
      let body := if foldersOnly then dropSlash body else body
      (Glob.parse? (widen anchored body)).map fun pattern => ⟨pattern, keeps, foldersOnly⟩

end IgnoreRule

def textLines : List Char → List (List Char)
  | [] => []
  | c :: cs =>
    if c = '\n' then [] :: textLines cs
    else match textLines cs with
      | l :: ls => (c :: l) :: ls
      | [] => [[c]]

namespace IgnoreFile

def dropReturn (line : List Char) : List Char :=
  if line.getLast? == some '\r' then line.dropLast else line

def parse (text : String) : List IgnoreRule :=
  let cs := text.toList
  let cs := if cs.head? == some '\ufeff' then cs.drop 1 else cs
  (textLines cs).filterMap fun line => IgnoreRule.ofLine? (dropReturn line)

/-- What the rules say of a path; the last rule that applies wins. -/
def verdict? (rules : List IgnoreRule) (path : String) (folder : Bool) : Option Verdict :=
  (rules.reverse.find? (·.applies path folder)).map IgnoreRule.verdict

end IgnoreFile
end QualityGate
