import QualityGate.Path

/-!
A tree of files and folders, and what a path leads to in it.
-/
namespace QualityGate

inductive ReadFailure
  | missing | directory | notDirectory | notText
  deriving DecidableEq, Repr

def ReadFailure.message : ReadFailure → String
  | missing => "No such file or directory (os error 2)"
  | directory => "Is a directory (os error 21)"
  | notDirectory => "Not a directory (os error 20)"
  | notText => "stream did not contain valid UTF-8"

inductive Entry
  /-- A file with its text; nothing where its bytes are no text. -/
  | file (content : Option String)
  | folder (entries : List (String × Entry))
  deriving Inhabited

namespace Entry

def entries : Entry → List (String × Entry)
  | file _ => []
  | folder es => es

def child? (e : Entry) (name : String) : Option Entry := (e.entries.find? (·.1 == name)).map (·.2)

def isFile : Entry → Bool
  | file _ => true
  | folder _ => false

def isFolder (e : Entry) : Bool := !e.isFile

/-- The entry that a list of names leads to. -/
def at? : List String → Entry → Option Entry
  | [], e => some e
  | name :: names, e => (e.child? name).bind (at? names)

def set (name : String) (new : Entry) : List (String × Entry) → List (String × Entry)
  | [] => [(name, new)]
  | (n, e) :: rest => if n = name then (n, new) :: rest else (n, e) :: set name new rest

/-- Puts an entry at the end of a list of names. Folders on the way are made, and a folder that is
there already keeps its entries. -/
def put (new : Entry) : List String → Entry → Entry
  | [], old =>
    match new, old with
    | folder [], folder es => folder es
    | new, _ => new
  | name :: names, old =>
    folder (set name (put new names ((old.child? name).getD (folder []))) old.entries)

end Entry

structure Disk where
  top : Entry
  /-- The names that lead to the working folder. -/
  here : List String

namespace Disk

/-- The disk with a working folder that holds these entries, each at the end of its names. -/
def ofEntries (here : List String) (found : List (List String × Entry)) : Disk where
  top := found.foldl (fun top (names, entry) => Entry.put entry names top)
    (Entry.put (.folder []) here (.folder []))
  here

variable (disk : Disk)

def step (names : List String) (piece : List Char) : Except ReadFailure (List String) :=
  match disk.top.at? names with
  | none => .error .missing
  | some (.file _) => .error .notDirectory
  | some (.folder entries) =>
    if Path.isEmptyPiece piece then .ok names
    else if piece == ['.', '.'] then .ok names.dropLast
    else if entries.any (·.1 == String.ofList piece) then .ok (names ++ [String.ofList piece])
    else .error .missing

/-- The names that lead to the entry of a path. -/
def locate (p : Path) : Except ReadFailure (List String) :=
  if p.text.isEmpty then .error .missing
  else p.pieces.foldlM disk.step (if p.isAbsolute then [] else disk.here)

def entry? (p : Path) : Option Entry :=
  match disk.locate p with
  | .ok names => disk.top.at? names
  | .error _ => none

def isFile (p : Path) : Bool := ((disk.entry? p).map Entry.isFile) == some true

def isFolder (p : Path) : Bool := ((disk.entry? p).map Entry.isFolder) == some true

def read (p : Path) : Except ReadFailure String :=
  match disk.locate p with
  | .error e => .error e
  | .ok names =>
    match disk.top.at? names with
    | some (.file (some text)) => .ok text
    | some (.file none) => .error .notText
    | some (.folder _) => .error .directory
    | none => .error .missing

/-- The absolute path of an existing entry, without `.` and `..`. -/
def canonical? (p : Path) : Option Path :=
  match disk.locate p with
  | .ok names => some ⟨"/" ++ "/".intercalate names⟩
  | .error _ => none

end Disk
end QualityGate
