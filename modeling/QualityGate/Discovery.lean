import QualityGate.Disk
import QualityGate.IgnoreFile
import QualityGate.Settings
import QualityGate.Syntax.SourceFile

/-!
The source files of a project. Hidden entries, ignored folders and what ignore files exclude are
left out, those of the folders above the project among them. The list of what a user ignores in all
projects is not read.
-/
namespace QualityGate.Discovery

open Syntax

/-- The ignore files of a folder, by their precedence. -/
structure FolderRules where
  /-- The names that lead from the folder to the project, if the folder is above it. -/
  down : List String
  /-- The names that lead from the project to the folder, if the folder is below it. -/
  path : List String
  files : List (List IgnoreRule)

def ignorePlaces : List (List String) := [[".ignore"], [".gitignore"], [".git", "info", "exclude"]]

def rulesAt (folder : Entry) (names : List String) : List IgnoreRule :=
  match folder.at? names with
  | some (.file (some text)) => IgnoreFile.parse text
  | _ => []

namespace FolderRules

def ofFolder (down path : List String) (folder : Entry) : FolderRules :=
  ⟨down, path, ignorePlaces.map (rulesAt folder)⟩

/-- The way from the folder to an entry that `path` leads to from the project. -/
def pathTo (f : FolderRules) (path : List String) : String :=
  "/".intercalate (f.down ++ path.drop f.path.length)

/-- The folders above the end of `names`, the nearest first. -/
def above : List String → Entry → List FolderRules
  | [], _ => []
  | name :: names, folder =>
    ((folder.child? name).map (above names)).getD [] ++ [ofFolder (name :: names) [] folder]

end FolderRules

/-- What the ignore files say of an entry. Files of a kind that comes first win over those of other
kinds, and among them the nearest one. `above` are the folders around the entry, the nearest
first. -/
def verdict? (above : List FolderRules) (path : List String) (folder : Bool) : Option Verdict :=
  [0, 1, 2].findSome? fun kind =>
    above.findSome? fun f =>
      IgnoreFile.verdict? (f.files[kind]?.getD []) (f.pathTo path) folder

def isHidden (name : String) : Bool := name.toList.head? == some '.'

/-- Whether an entry is left out by ignore files, or hidden and not taken back by one. -/
def isExcluded (above : List FolderRules) (path : List String) (folder : Bool) : Bool :=
  match verdict? above path folder with
  | some .ignored => true
  | some .kept => false
  | none => ((path.getLast?.map isHidden) == some true)

mutual
/-- The files at an entry and below it, as names that lead to them from the project. -/
def files (ignoreDirs : List String) (above : List FolderRules) (path : List String) :
    Entry → List (List String)
  | .file _ => if isExcluded above path false then [] else [path]
  | .folder entries =>
    if isExcluded above path true || (path.getLast?.map ignoreDirs.contains) == some true then []
    else filesIn ignoreDirs (.ofFolder [] path (.folder entries) :: above) path entries

def filesIn (ignoreDirs : List String) (above : List FolderRules) (path : List String) :
    List (String × Entry) → List (List String)
  | [] => []
  | (name, entry) :: rest =>
    files ignoreDirs above (path ++ [name]) entry ++ filesIn ignoreDirs above path rest
end

def walk (ignoreDirs : List String) (above : List FolderRules) (project : Entry) :
    List (List String) :=
  filesIn ignoreDirs (.ofFolder [] [] project :: above) [] project.entries

def rulesAbove (disk : Disk) (root : Path) : List FolderRules :=
  match disk.locate root with
  | .ok names => FolderRules.above names disk.top
  | .error _ => []

def isSource (p : Path) : Bool :=
  (Language.ofPath? p).isSome && ((p.fileName?.map fun n => !n.endsWith ".d.ts") == some true)

/-- The source files below `root`, in order. -/
def sources (settings : Settings) (disk : Disk) (root : Path) : List Path :=
  match disk.entry? root with
  | none => []
  | some project =>
    (((walk settings.ignoreDirs (rulesAbove disk root) project).map fun names =>
      root.join ("/".intercalate names)).filter isSource).mergeSort Path.le

end QualityGate.Discovery
