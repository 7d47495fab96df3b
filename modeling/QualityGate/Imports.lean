import QualityGate.Syntax.Literals

/-!
The imports at the top level of a file.
-/
namespace QualityGate

open Syntax

structure ImportBinding where
  /-- The name in the other module: `default` and `*` for default and namespace imports. -/
  imported : String
  bound : String
  place : Location
  deriving DecidableEq, Repr

structure Import where
  source : String
  bindings : List ImportBinding
  typeOnly : Bool
  place : Location
  deriving DecidableEq, Repr

namespace Import

variable (file : SourceFile)

def binding (imported : String) (name : Node) : ImportBinding :=
  ⟨imported, file.textOf name, file.location name⟩

def ofSpecifier? (n : Node) : Option ImportBinding :=
  if n.kind = .importSpecifier then
    (n.child? .name).map fun name =>
      binding file ((file.stringValue? name).getD (file.textOf name)) ((n.child? .alias).getD name)
  else none

def ofClausePart (n : Node) : List ImportBinding :=
  match n.kind with
  | .identifier => [binding file "default" n]
  | .namespaceImport => ((n.parts.find? (·.kind = .identifier)).map (binding file "*")).toList
  | .namedImports => n.parts.filterMap (ofSpecifier? file)
  | _ => []

/-- The import that a statement makes, if it names its module directly. -/
def ofStatement? (n : Node) : Option Import := do
  let source ← (n.child? .source).bind file.stringValue?
  return {
    source
    bindings := ((n.parts.filter (·.kind = .importClause)).flatMap Node.parts).flatMap
      (ofClausePart file)
    typeOnly := n.children.any fun c => !c.named && file.textOf c == "type"
    place := file.location n }

def ofFile : List Import :=
  (file.root.parts.filter (·.kind = .importStatement)).filterMap (ofStatement? file)

end Import
end QualityGate
