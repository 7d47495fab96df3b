/-!
File paths. A path is its text; two paths are the same, and are ordered, by their components, so
that `a//b`, `a/./b` and `a/b/` name one file and `a/b` comes before `a-b`.
-/
namespace QualityGate

inductive Component
  | root
  /-- A leading `.`. -/
  | here
  | up
  | name (text : String)
  deriving DecidableEq, Repr

namespace Component

def rank : Component → Nat
  | root => 0
  | here => 1
  | up => 2
  | name _ => 3

def text : Component → String
  | root => "/"
  | here => "."
  | up => ".."
  | name s => s

def lt : Component → Component → Bool
  | name a, name b => a < b
  | a, b => a.rank < b.rank

end Component

structure Path where
  text : String
  deriving DecidableEq, Repr, Inhabited

namespace Path

/-- The pieces of a text between slashes. -/
def split : List Char → List (List Char)
  | [] => [[]]
  | c :: cs =>
    if c = '/' then [] :: split cs
    else match split cs with
      | s :: ss => (c :: s) :: ss
      | [] => [[c]]

def isAbsolute (p : Path) : Bool := p.text.toList.head? == some '/'

/-- The pieces behind the root. -/
def pieces (p : Path) : List (List Char) :=
  match p.text.toList with
  | '/' :: cs => split cs
  | cs => split cs

def isEmptyPiece (s : List Char) : Bool := s.isEmpty || s == ['.']

def componentOf (s : List Char) : Component :=
  if s == ['.', '.'] then .up else .name (String.ofList s)

def components (p : Path) : List Component :=
  let body (ss : List (List Char)) := (ss.filter (!isEmptyPiece ·)).map componentOf
  if p.isAbsolute then .root :: body p.pieces
  else match p.pieces with
    | ['.'] :: ss => .here :: body ss
    | ss => body ss

def ltComponents : List Component → List Component → Bool
  | [], [] => false
  | [], _ :: _ => true
  | _ :: _, [] => false
  | a :: as, b :: bs => if a = b then ltComponents as bs else a.lt b

def same (p q : Path) : Bool := p.components == q.components

def before (p q : Path) : Bool := ltComponents p.components q.components

def le (p q : Path) : Bool := !q.before p

def ofComponents (cs : List Component) : Path :=
  match cs with
  | .root :: rest => ⟨"/" ++ "/".intercalate (rest.map Component.text)⟩
  | _ => ⟨"/".intercalate (cs.map Component.text)⟩

def joinPieces (ss : List (List Char)) : List Char :=
  (List.intersperse ['/'] ss).flatten

/-- Drops pieces that name nothing from the end; a leading `.` of a relative path stays. -/
def trimEnd (absolute : Bool) (ss : List (List Char)) : List (List Char) :=
  let kept := (ss.reverse.dropWhile isEmptyPiece).reverse
  if kept.isEmpty && !absolute && ss.head? == some ['.'] then [['.']] else kept

def parent? (p : Path) : Option Path :=
  match trimEnd p.isAbsolute p.pieces with
  | [] => none
  | ss =>
    let rest := joinPieces (trimEnd p.isAbsolute ss.dropLast)
    some ⟨String.ofList (if p.isAbsolute then '/' :: rest else rest)⟩

def join (p : Path) (q : String) : Path :=
  if q.toList.head? == some '/' then ⟨q⟩
  else if p.text.isEmpty then ⟨q⟩
  else if p.text.toList.getLast? == some '/' then ⟨p.text ++ q⟩
  else ⟨p.text ++ "/" ++ q⟩

/-- The last component, unless it is the root, `.` or `..`. -/
def fileName? (p : Path) : Option String :=
  match p.components.getLast? with
  | some (.name s) => some s
  | _ => none

/-- Stem and extension of a file name; a leading point begins no extension. -/
def splitExtension (name : String) : String × Option String :=
  let back := name.toList.reverse
  let ext := back.takeWhile (· != '.')
  match back.drop ext.length with
  | '.' :: stem => if stem.isEmpty then (name, none)
      else (String.ofList stem.reverse, some (String.ofList ext.reverse))
  | _ => (name, none)

def extension? (p : Path) : Option String := p.fileName?.bind fun n => (splitExtension n).2

def withFileName (p : Path) (name : String) : Path :=
  match p.parent? with
  | some dir => dir.join name
  | none => p.join name

def withExtension (p : Path) (ext : String) : Path :=
  match p.fileName? with
  | some n => p.withFileName ((splitExtension n).1 ++ "." ++ ext)
  | none => p

def dropPrefix? : List Component → List Component → Option (List Component)
  | [], cs => some cs
  | a :: as, b :: bs => if a = b then dropPrefix? as bs else none
  | _ :: _, [] => none

def startsWith (p root : Path) : Bool := (dropPrefix? root.components p.components).isSome

/-- The spelling of `p` behind its first `n` components. -/
def spellingAfter (p : Path) (n : Nat) : List Char :=
  let dropped := if p.isAbsolute || p.pieces.head? == some ['.'] then n - 1 else n
  let body := if !p.isAbsolute && p.pieces.head? == some ['.'] && n > 0 then p.pieces.drop 1
    else p.pieces
  joinPieces (trimEnd true (go dropped body))
where
  go : Nat → List (List Char) → List (List Char)
    | _, [] => []
    | 0, s :: ss => if isEmptyPiece s then go 0 ss else s :: ss
    | n + 1, s :: ss => if isEmptyPiece s then go (n + 1) ss else go n ss

/-- What leads from `root` down to `p`, in the spelling of `p`. -/
def below? (p root : Path) : Option String :=
  if !p.startsWith root then none
  else match root.components.length with
    | 0 =>
      let rest := joinPieces (trimEnd p.isAbsolute p.pieces)
      some (String.ofList (if p.isAbsolute then '/' :: rest else rest))
    | n => some (String.ofList (spellingAfter p n))

def slashed (text : String) : String :=
  String.ofList (text.toList.map fun c => if c = '\\' then '/' else c)

/-- The path as shown to a user: relative to `root` where it lies below, with forward slashes. -/
def shownFrom (p root : Path) : String := slashed ((p.below? root).getD p.text)

/-- Follows `.` and `..` in the text alone; a step up that has nothing to leave is kept, and so left
by the next one. -/
def normalize (p : Path) : Path :=
  ofComponents (p.components.foldl step [])
where
  step (out : List Component) : Component → List Component
    | .here => out
    | .up => if out.isEmpty || out == [.root] then out ++ [.up] else out.dropLast
    | c => out ++ [c]

end Path
end QualityGate
