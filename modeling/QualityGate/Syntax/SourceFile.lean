import QualityGate.Disk
import QualityGate.Syntax.Repair
import QualityGate.Proofs.Syntax.Comments

/-!
Parsed source files: the language a path selects, the tree of a text, and the texts and places of
nodes.
-/
namespace QualityGate.Syntax

inductive Language
  | typeScript | tsx | javaScript
  deriving DecidableEq, Repr

namespace Language

def ofExtension? : String → Option Language
  | "ts" | "mts" | "cts" => some typeScript
  | "tsx" => some tsx
  | "js" | "jsx" | "mjs" | "cjs" => some javaScript
  | _ => none

def ofPath? (p : Path) : Option Language := p.extension?.bind ofExtension?

def dialect : Language → Dialect
  | typeScript => ⟨true, false⟩
  | tsx => ⟨true, true⟩
  | javaScript => ⟨false, true⟩

end Language

def isComponentFile (p : Path) : Bool := p.extension? == some "tsx" || p.extension? == some "jsx"

/-- Files whose types are checked; declaration files are not. -/
def isTypedFile (p : Path) : Bool :=
  (match p.extension? with
    | some "ts" | some "tsx" | some "mts" | some "cts" => true
    | _ => false) && !p.text.endsWith ".d.ts"

/-- Line and column from 1 on; a column counts bytes. -/
structure Location where
  line : Nat
  column : Nat
  deriving DecidableEq, Repr

namespace Location

def first : Location := ⟨1, 1⟩

def next (l : Location) (c : Char) : Location :=
  if c = '\n' then ⟨l.line + 1, 1⟩ else ⟨l.line, l.column + c.utf8Size⟩

def after (cs : List Char) : Location := cs.foldl next first

def lt (a b : Location) : Bool := a.line < b.line || (a.line = b.line && a.column < b.column)

end Location

inductive ParseFailure
  | unreadable (path : Path) (cause : ReadFailure)
  | unsupported (path : Path)
  | unexpected (place : Location) (snippet : String)
  deriving DecidableEq, Repr

namespace ParseFailure

def message : ParseFailure → String
  | unreadable path cause => "cannot read " ++ path.text ++ ": " ++ cause.message
  | unsupported path => "unsupported file extension: " ++ path.text
  | unexpected place snippet =>
    "unexpected token `" ++ snippet ++ "` at " ++ toString place.line ++ ":" ++
      toString place.column

def place? : ParseFailure → Option Location
  | unexpected place _ => some place
  | _ => none

end ParseFailure

structure SourceFile where
  path : Path
  language : Language
  text : Array Char
  root : Node
  /-- Nodes lie inside their parents, side by side. -/
  isOrdered : Node.orderedAll 0 text.size root.children = true
  /-- Tokens are leaves, and markup starts with tags and brackets. -/
  isMarked : Node.markedAll root.children = true
  /-- Nodes have the children of their kinds. -/
  isShaped : root.shaped language.dialect.typed = true
  isProgram : root.kind = .program

namespace SourceFile

/-- At most 24 characters of the text from `start` to `stop`, up to the first line end. -/
def snippet (text : Array Char) (start stop : Nat) : String :=
  let cs := ((text.extract start stop).toList.take 24).takeWhile (· != '\n')
  String.ofList (if cs.getLast? == some '\r' then cs.dropLast else cs)

def unexpected (text : Array Char) (start stop : Nat) : ParseFailure :=
  .unexpected (Location.after (text.extract 0 start).toList) (snippet text start stop)

/-- The file of a text that is read from end to end. -/
def ofProgram (path : Path) (language : Language) (cs : List Char) (root : Node)
    (h : programOf language.dialect [] cs = .ok root) : SourceFile :=
  have hprogram := Comments.isProgram_of_programOf h
  ⟨path, language, cs.toArray, Comments.insertRoot cs.toArray root, hprogram.ordered,
    hprogram.marked, hprogram.shaped, hprogram.kind⟩

def parse (path : Path) (source : String) : Except ParseFailure SourceFile :=
  match Language.ofPath? path with
  | none => .error (.unsupported path)
  | some language =>
    let cs := source.toList
    match h : programOf language.dialect [] cs with
    | .error offset =>
      let fault := faultOf language.dialect cs offset
      .error (unexpected cs.toArray fault.start fault.stop)
    | .ok root => .ok (ofProgram path language cs root h)

def load (disk : Disk) (path : Path) : Except ParseFailure SourceFile :=
  match disk.read path with
  | .error cause => .error (.unreadable path cause)
  | .ok text => parse path text

variable (file : SourceFile)

def textOf (n : Node) : String := String.ofList (file.text.extract n.start n.stop).toList

def locate (offset : Nat) : Location := Location.after (file.text.extract 0 offset).toList

def location (n : Node) : Location := file.locate n.start

end SourceFile
end QualityGate.Syntax
