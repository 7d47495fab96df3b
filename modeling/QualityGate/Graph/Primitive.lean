import QualityGate.Imports
import QualityGate.Resolver
import QualityGate.Text.Search
import QualityGate.Violation
import QualityGate.Syntax.Node.Cursor

/-!
Primitives: the components of one shared folder, which other files are to import and not to replace.
-/
namespace QualityGate.Primitive

open Syntax

structure Surroundings where
  root : Path
  /-- The folder of the primitives. -/
  dir : Path
  resolver : Resolver

variable (s : Surroundings) (file : SourceFile)

def isPrimitive (source : String) : Bool :=
  Text.contains "/primitives".toList source.toList || source.startsWith "primitives/"
    || source = "primitives"
    || ((s.resolver.candidate? source file.path).map (·.startsWith s.dir)) == some true

def importsAny : Bool := (Import.ofFile file).any fun i => isPrimitive s file i.source

def importedNames : List String :=
  ((Import.ofFile file).filter fun i => isPrimitive s file i.source).flatMap fun i =>
    i.bindings.map (·.bound)

/-- Name and outside name of the entries of an export clause. -/
def specifiers (n : Node) : List (String × String) :=
  (((n.parts.filter (·.kind = .exportClause)).flatMap Node.parts).filter
    (·.kind = .exportSpecifier)).filterMap fun spec =>
      (spec.child? .name).map fun name =>
        (file.textOf name, file.textOf ((spec.child? .alias).getD name))

/-- What a declaration declares, each with the node that holds it. -/
def declared (declaration : Node) : List (String × Node) :=
  if declaration.kind = .lexicalDeclaration || declaration.kind = .variableDeclaration then
    (declaration.parts.filter (·.kind = .variableDeclarator)).filterMap fun d => do
      let name ← d.child? .name
      let value ← d.child? .value
      return (file.textOf name, value)
  else ((declaration.child? .name).map fun name => (file.textOf name, declaration)).toList

def head (tag : String) : String := String.ofList (tag.toList.takeWhile (· != '.'))

/-- The tags of imported primitives that a node puts into markup. -/
def rendered (imported : List String) (body : Node) : List String :=
  (((body.preorder.filter (·.kind.isTag)).filterMap file.tagName?).filter fun tag =>
    imported.contains (head tag)).eraseDups

/-- Whether a name holds that of a primitive and something more. -/
def wraps (name tag : String) : Bool :=
  let base := (tag.toList.reverse.takeWhile (· != '.')).reverse
  name.toList != base && Text.contains base name.toList

def isDefault (n : Node) : Bool := n.children.any fun c => !c.named && file.textOf c == "default"

/-- The primitives that a declaration replaces. -/
def ofDeclared (imported : List String) (default : Bool) (entry : String × Node) : List String :=
  if imported.contains entry.1 then [entry.1]
  else ((rendered file imported entry.2).filter (wraps entry.1)).map fun tag =>
    (if default then "default" else entry.1) ++ " (wraps " ++ tag ++ ")"

/-- The primitives that an export statement hands on or replaces. -/
def ofExport (imported : List String) (n : Node) : List String :=
  match (n.child? .source).bind file.stringValue? with
  | some source => if isPrimitive s file source then (specifiers file n).map (·.2) else []
  | none =>
    if imported.isEmpty then []
    else
      ((specifiers file n).filter fun e => imported.contains e.1).map (·.2)
        ++ (match n.child? .value with
          | some value =>
            if value.kind = .identifier && imported.contains (file.textOf value) then ["default"]
            else []
          | none => [])
        ++ (match n.child? .declaration with
          | some d => (declared file d).flatMap (ofDeclared file imported (isDefault file n))
          | none => [])

/-- The export statements of a file that hand on or replace primitives, with what they replace. -/
def overwriting : List (Node × List String) :=
  let imported := importedNames s file
  ((file.root.parts.filter (·.kind = .exportStatement)).map fun n =>
    (n, ofExport s file imported n)).filter fun e => !e.2.isEmpty

def overwritten? : Option Violation :=
  match overwriting s file with
  | [] => none
  | (n, names) :: rest =>
    some (((Violation.warning .primitivesOverwritten (file.path.shownFrom s.root
      ++ " re-exports modified versions of primitives: "
      ++ ", ".intercalate (names ++ rest.flatMap (·.2)).eraseDups)).located
        (file.location n)).inFile file.path)

end QualityGate.Primitive
