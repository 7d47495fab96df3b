import QualityGate.Command.Execute

/-!
The program. It reads the folder that a command is about, carries the command out and prints the
outcome.
-/
namespace QualityGate.Main

/-- Everything below a folder; in the ignored ones files are known by name alone. Links are not
followed. -/
partial def load (ignored : List String) (readable : Bool) (folder : String) : IO Entry := do
  let mut found : List (String × Entry) := []
  for e in ← (← IO.FS.realPath folder).readDir do
    match (← e.path.symlinkMetadata).type with
    | .dir =>
      let searched := readable && !ignored.contains e.fileName
      found := (e.fileName, ← load ignored searched e.path.toString) :: found
    | .file =>
      let text ← if readable then pure (String.fromUTF8? (← IO.FS.readBinFile e.path))
        else pure none
      found := (e.fileName, .file text) :: found
    | _ => pure ()
  return .folder found

def names (path : String) : List String :=
  ((Path.split path.toList).filter (!Path.isEmptyPiece ·)).map String.ofList

/-- The settings of the project in a folder, as far as they tell what is not searched. -/
def ignoredIn (folder : String) : IO (List String) := do
  let file := (← IO.FS.realPath folder) / Settings.fileName
  let text ← try some <$> IO.FS.readFile file catch _ => pure none
  let disk : Disk := ⟨.folder [(Settings.fileName, .file text)], []⟩
  match Settings.load disk ⟨"/"⟩ with
  | .ok settings => return settings.ignoreDirs
  | .error _ => return Settings.default.ignoreDirs

def folder? (args : List String) : Option String :=
  match Command.parse args with
  | .ok ⟨_, .run dir _ _ _⟩ => some dir
  | .ok ⟨_, .rules dir⟩ => some dir
  | .error _ => none

def ignoreFilesAbove (names : List String) : IO (List (List String × Entry)) := do
  let mut found : List (List String × Entry) := []
  for above in (List.range names.length).map names.take do
    for place in Discovery.ignorePlaces do
      let file := above ++ place
      try
        let bytes ← IO.FS.readBinFile ("/" ++ "/".intercalate file)
        found := (file, .file (String.fromUTF8? bytes)) :: found
      catch _ => pure ()
  return found

def diskFor (args : List String) : IO Disk := do
  let here := names (← IO.currentDir).toString
  try
    match folder? args with
    | some dir =>
      let folder := (← IO.FS.realPath dir).toString
      let project ← load (← ignoredIn folder) true folder
      return .ofEntries here ((← ignoreFilesAbove (names folder)) ++ [(names folder, project)])
    | none => return .ofEntries here []
  catch _ => return .ofEntries here []

def run (args : List String) : IO UInt32 := do
  let colors := (← (← IO.getStdout).isTty) && (← IO.getEnv "NO_COLOR").isNone
  let outcome := Command.execute (← diskFor args) colors "" args
  IO.print outcome.output
  if let some message := outcome.error then IO.eprintln message
  return outcome.code.toUInt32

end QualityGate.Main

def main (args : List String) : IO UInt32 := QualityGate.Main.run args
