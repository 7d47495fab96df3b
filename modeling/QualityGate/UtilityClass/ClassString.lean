import QualityGate.Settings
import QualityGate.Tables
import QualityGate.Syntax.Literals

/-!
Where class lists are written: as the value of a class attribute, or as an argument of a class
helper.
-/
namespace QualityGate.UtilityClass

open Syntax

structure ClassString where
  value : String
  place : Location
  /-- The tag of the element that gets the classes. -/
  element : Option String
  deriving DecidableEq, Repr

namespace ClassString

variable (file : SourceFile) (settings : Settings) (tables : Tables)

/-- A literal as a class list; a substitution divides classes. -/
def ofLiteral? (element : Option String) (n : Node) : Option ClassString :=
  (file.stringValue? n <|> file.templateValue? n " ").map fun value =>
    ⟨value, file.location n, element⟩

def isClassAttribute (attr : Node) : Bool :=
  match (file.nameAndValue attr).1 with
  | some name => tables.classAttributes.contains name
  | none => false

def ofTag (tag : Node) : List ClassString :=
  ((SourceFile.attributes tag).filter fun a => a.kind = .jsxAttribute &&
    isClassAttribute file tables a).filterMap
    fun attr => do
      let value ← (file.nameAndValue attr).2
      let literal ← if value.kind = .jsxExpression then value.parts.head? else some value
      ofLiteral? file (file.tagName? tag) literal

/-- The element whose class attribute has the call as its whole value. -/
def owner? (call : Node.Place) : Option String :=
  match call.enclosing with
  | container :: attr :: tag :: _ =>
    if container.kind = .jsxExpression && attr.kind = .jsxAttribute &&
      isClassAttribute file tables attr
    then file.tagName? tag else none
  | _ => none

def ofCall (call : Node.Place) : List ClassString :=
  match call.node.child? .function, call.node.child? .arguments with
  | some callee, some arguments =>
    if callee.kind = .identifier && settings.classHelpers.contains (file.textOf callee) then
      arguments.parts.filterMap (ofLiteral? file (owner? file tables call))
    else []
  | _, _ => []

/-- All class lists of a file, in the order of the nodes that hold them. -/
def ofFile : List ClassString :=
  (Node.places [] file.root).flatMap fun p =>
    if p.node.kind.isTag then ofTag file tables p.node
    else if p.node.kind = .callExpression then ofCall file settings tables p
    else []

end ClassString
end QualityGate.UtilityClass
