import QualityGate.CompilerOptions
import QualityGate.Disk

/-!
Where the module names in imports lead to: paths relative to the importing file, and aliases. Names
of packages lead nowhere.
-/
namespace QualityGate

/-- The files of a resolver's aliases start from `base`. -/
structure Alias where
  name : String
  base : Path
  deriving DecidableEq, Repr

structure Resolver where
  /-- Longer names first. -/
  aliases : List Alias
  deriving Repr

namespace Resolver

/-- Drops `suffix` from the end as often as it stands there; `suffix` is written backwards. -/
def dropEnd (suffix : List Char) : Nat → List Char → List Char
  | 0, back => back
  | fuel + 1, back =>
    if suffix.isPrefixOf back then dropEnd suffix fuel (back.drop suffix.length) else back

def stem (pattern : String) : String :=
  let back := pattern.toList.reverse
  let back := dropEnd ['*', '/'] back.length back
  String.ofList (dropEnd ['*'] back.length back).reverse

def alias? (base : Path) (pattern : String) (targets : List String) : Option Alias :=
  match targets with
  | [] => none
  | target :: _ =>
    if (stem pattern).isEmpty then none
    else some ⟨stem pattern, (base.join (stem target)).normalize⟩

def before (a b : Alias) : Bool :=
  b.name.utf8ByteSize < a.name.utf8ByteSize
    || (b.name.utf8ByteSize = a.name.utf8ByteSize && a.name ≤ b.name)

/-- Without declared aliases `@` stands for `src`. -/
def ofOptions (root : Path) (options : Option CompilerOptions) : Resolver :=
  let declared := match options with
    | some o => o.paths.filterMap fun (pattern, targets) =>
      alias? (o.pathsBase.getD root) pattern targets
    | none => []
  let aliases := if declared.isEmpty then [⟨"@", root.join "src"⟩] else declared
  ⟨aliases.mergeSort before⟩

/-- The path that a name with the alias in front stands for. -/
def through? (specifier : String) (a : Alias) : Option Path :=
  if specifier = a.name then some a.base
  else if (a.name.toList ++ ['/']).isPrefixOf specifier.toList then
    some (a.base.join (String.ofList (specifier.toList.drop (a.name.toList.length + 1)))).normalize
  else none

/-- The path that a name stands for in the file `source`, whether or not there is such a file. -/
def candidate? (r : Resolver) (specifier : String) (source : Path) : Option Path :=
  if specifier.toList.head? == some '.' then
    some ((source.parent?.getD ⟨""⟩).join specifier).normalize
  else r.aliases.findSome? (through? specifier)

/-- The extensions that names leave out, by precedence. -/
def extensions : List String := ["ts", "tsx", "js", "jsx"]

/-- The files that a path may mean, by precedence: with an extension added, with the extension of a
script replaced by that of its typed source, and as a folder with an index. -/
def alternatives (disk : Disk) (p : Path) (name : String) : List Path :=
  (extensions.map fun e => p.withFileName (name ++ "." ++ e))
    ++ (match p.extension? with
      | some "js" | some "jsx" | some "mjs" | some "cjs" =>
        [p.withExtension "ts", p.withExtension "tsx"]
      | _ => [])
    ++ (if disk.isFolder p then extensions.map fun e => p.join ("index." ++ e) else [])

/-- The existing file that a path means. -/
def file? (disk : Disk) (p : Path) : Option Path :=
  if disk.isFile p then some p
  else match p.fileName? with
    | none => none
    | some name => (alternatives disk p name).find? disk.isFile

/-- The file that a name leads to in the file `source`. -/
def resolve? (r : Resolver) (disk : Disk) (specifier : String) (source : Path) : Option Path :=
  (r.candidate? specifier source).bind (file? disk)

end Resolver
end QualityGate
