import QualityGate.Syntax.Parser

/-!
Names and literals, and the phrases through which the grammar refers to itself.
-/
namespace QualityGate.Syntax

/-- The mutually recursive parts of the grammar. -/
inductive Phrase
  | statement
  /-- One or more expressions divided by commas. -/
  | expressions
  | expression
  | unary
  | type
  /-- A type that is no conditional type. -/
  | unionType
  | pattern
  | element
  deriving DecidableEq, Repr

abbrev Grammar := Phrase → Nodes

namespace Grammar
open QualityGate.Syntax.Parser

/-- Words that are never the name of a binding. -/
def reserved : List String :=
  ["break", "case", "catch", "class", "const", "continue", "debugger", "default", "delete", "do",
   "else", "export", "extends", "finally", "for", "function", "if", "import", "in", "instanceof",
   "new", "return", "super", "switch", "this", "throw", "try", "typeof", "var", "void", "while",
   "with", "true", "false", "null"]

def isBindable : Token → Bool
  | .word s => !reserved.contains s
  | _ => false

def isWord : Token → Bool
  | .word _ => true
  | _ => false

/-- Words that stand for a value of their own. -/
def isConstant : Token → Bool
  | .word s => ["this", "super", "true", "false", "null", "undefined"].contains s
  | _ => false

/-- A name that can be bound, as a leaf of the given kind. -/
def bindable (kind : Kind) : Nodes :=
  guarded (fun _ c => isBindable c.token) fun _ => token kind true

def identifier : Nodes :=
  onToken fun
    | .word "undefined" => token .other true
    | _ => bindable .identifier

def thisOr (p : Nodes) : Nodes :=
  onToken fun
    | .word "this" => token .other true
    | _ => p

def anyWord (kind : Kind) : Nodes :=
  guarded (fun _ c => isWord c.token) fun _ => token kind true

def stringLiteral : Nodes :=
  guarded (fun _ c => c.token == .string) fun _ => token .string true

def numberLiteral : Nodes :=
  guarded (fun _ c => c.token == .number) fun _ => token .number true

def privateName : Nodes :=
  guarded (fun _ c => c.token == .privateName) fun _ => token .other true

def memberName : Nodes := anyWord .propertyIdentifier <|> privateName

/-- The key of a member: a word, a literal or an expression in brackets. -/
def propertyName (g : Grammar) : Nodes :=
  onToken fun
    | .word _ => anyWord .propertyIdentifier
    | .privateName => privateName
    | .string => stringLiteral
    | .number => numberLiteral
    | _ => branch .other (bracketed (mark "[" >> g .expression >> mark "]"))

def beginsKey : Token → Bool
  | .word _ | .string | .number | .privateName => true
  | .punct s => s == "[" || s == "*"
  | _ => false

/-- The word `s` in front of a key, not as the key itself. -/
def modifier (s : String) : Nodes :=
  keyword s >> ahead (guarded (fun _ c => beginsKey c.token) fun _ => nothing)

/-- `a`, `a.b`, `a.b.c`, …, nested to the left. -/
def memberPath : Nodes :=
  chain (bindable .identifier) fun left =>
    extend .memberExpression .object left
      (mark "." >> roled .property (anyWord .propertyIdentifier))

def rename (old new : Kind) (n : Node) : Node := if n.kind = old then n.withKind new else n

/-- A path that qualifies a name rather than reads a value. -/
def asQualifier (n : Node) : Node := rename .memberExpression .other n

def qualifiedName : Nodes := mapped asQualifier memberPath

/-- The last name of a path names a type, what stands before qualifies it. -/
def asTypeName (n : Node) : Node :=
  match n.kind, n.children with
  | .memberExpression, [object, dot, property] =>
    { n with
      kind := .other
      children := [asQualifier object, dot,
        (rename .propertyIdentifier .typeIdentifier property).withRole .name] }
  | _, _ => rename .identifier .typeIdentifier n

def typeName : Nodes := mapped asTypeName memberPath

end Grammar
end QualityGate.Syntax
