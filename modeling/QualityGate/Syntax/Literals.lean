import QualityGate.Syntax.SourceFile

/-!
What nodes say: values of literals, keys of object entries, names and attributes of tags.
-/
namespace QualityGate.Syntax.SourceFile

variable (file : SourceFile)

def slice (start stop : Nat) : List Char := (file.text.extract start stop).toList

/-- The text of a string node without its quotes. -/
def stringValue? (n : Node) : Option String :=
  if n.kind = .string then some (String.ofList ((file.slice n.start n.stop).drop 1).dropLast)
  else none

/-- The text from `cursor` to `stop` in which every substitution is replaced by `placeholder`. -/
def fill (placeholder : List Char) (stop : Nat) : Nat → List Node → List Char
  | cursor, [] => file.slice cursor stop
  | cursor, hole :: holes =>
    file.slice cursor hole.start ++ placeholder ++ fill placeholder stop hole.stop holes

def templateValue? (n : Node) (placeholder : String) : Option String :=
  if n.kind = .templateString then
    some (String.ofList (file.fill placeholder.toList (n.stop - 1) (n.start + 1)
      (n.parts.filter (·.kind = .templateSubstitution))))
  else none

/-- The value of a string or a template, substitutions shown as `$` and three points in braces. -/
def literalValue? (n : Node) : Option String :=
  file.stringValue? n <|> file.templateValue? n "$\x7b...\x7d"

/-- The key of a pair where it is a name or a string. -/
def propertyKey? (pair : Node) : Option String :=
  (pair.child? .key).bind fun key =>
    match key.kind with
    | .propertyIdentifier | .identifier => some (file.textOf key)
    | _ => file.stringValue? key

def entries (object : Node) : List (String × Node) :=
  (object.parts.filter (·.kind = .pair)).filterMap fun pair => do
    let key ← file.propertyKey? pair
    let value ← pair.child? .value
    return (key, value)

/-- The name of a tag; the tags of a fragment have none. -/
def tagName? (tag : Node) : Option String := (tag.child? .name).map file.textOf

def nameAndValue (attr : Node) : Option String × Option Node :=
  match attr.parts with
  | [] => (none, none)
  | name :: rest => (some (file.textOf name), rest.getLast?)

/-- The attributes of a tag, spread ones included. -/
def attributes (tag : Node) : List Node :=
  tag.parts.filter fun c =>
    c.role != some .name && (c.kind = .jsxAttribute || c.kind = .jsxExpression)

def hasAttribute (tag : Node) (name : String) : Bool :=
  (attributes tag).any fun a => a.kind = .jsxAttribute && (file.nameAndValue a).1 == some name

/-- A name that may refer to a binding: not the property of a member access, not the key of a
pair. -/
def isReference (p : Node.Place) : Bool :=
  p.node.kind.isName &&
    match p.parent? with
    | some parent =>
      !(parent.kind = .memberExpression && p.node.role = some .property)
        && !(parent.kind = .pair && p.node.role = some .key)
    | none => true

end QualityGate.Syntax.SourceFile
