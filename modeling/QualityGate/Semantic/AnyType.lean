import QualityGate.Syntax.Literals
import QualityGate.Tables
import QualityGate.Violation
import QualityGate.Syntax.Node.Cursor

/-!
The type `any`, written out, or implied where a declaration says nothing about its type.
-/
namespace QualityGate.AnyType

open Syntax

/-- Every `any` that is written as a type. -/
def explicit (file : SourceFile) : List Violation :=
  (file.root.preorder.filter fun n => n.kind = .predefinedType && file.textOf n == "any").map
    fun n =>
    (Violation.error .noAnyType "Usage of \"any\" type is not allowed").located (file.location n)

/-- `explicit`, for the languages that have types. -/
def explicit? (file : SourceFile) : Option (List Violation) :=
  if file.language.dialect.typed then some (explicit file) else none

inductive Cause
  | exported (name : String)
  | parameter (name : String)
  | member (name : String)
  /-- `new` on a function that is no class. -/
  | construct
  | rest (name : String)
  | element (name : String)
  deriving DecidableEq, Repr

namespace Cause

def code : Cause → Nat
  | exported _ => 7005
  | parameter _ => 7006
  | member _ => 7008
  | construct => 7009
  | rest _ => 7019
  | element _ => 7031

def message : Cause → String
  | exported name => "Variable '" ++ name ++ "' implicitly has an 'any' type."
  | parameter name => "Parameter '" ++ name ++ "' implicitly has an 'any' type."
  | member name => "Member '" ++ name ++ "' implicitly has an 'any' type."
  | construct =>
    "'new' expression, whose target lacks a construct signature, implicitly has an 'any' type."
  | rest name => "Rest parameter '" ++ name ++ "' implicitly has an 'any[]' type."
  | element name => "Binding element '" ++ name ++ "' implicitly has an 'any' type."

end Cause

structure Diagnostic where
  cause : Cause
  place : Location
  deriving DecidableEq, Repr

/-- Whether the surroundings give an expression its type: as an argument, in markup, as the operand
of a cast, as the value of a variable with a type, or inside an object that has its type from there.
`above` are the nodes around the expression, the nearest first. -/
def isTypedBy : List Node → Bool
  | [] => false
  | parent :: above =>
    match parent.kind with
    | .parenthesizedExpression => isTypedBy above
    | .arguments | .jsxExpression | .asExpression | .satisfiesExpression => true
    | .variableDeclarator => parent.has .type
    | .pair =>
      match above with
      | object :: above => object.kind = .object && isTypedBy above
      | [] => false
    | _ => false

/-- Whether the surroundings of a function give its parameters their types. -/
def isContextual (p : Node.Place) : Bool :=
  match p.node.kind with
  | .methodDefinition =>
    match p.above with
    | object :: above => object.kind = .object && isTypedBy above
    | [] => false
  | .functionDeclaration | .generatorFunctionDeclaration => false
  | _ => isTypedBy p.above

def isBinding : Kind → Bool
  | .shorthandPropertyIdentifierPattern | .identifier => true
  | _ => false

/-- The parts of a pattern in which it binds names. What has a default value takes its type from
there. -/
def elements (n : Node) : List Node :=
  match n.kind with
  | .objectPattern | .arrayPattern | .restPattern => n.parts
  | .pairPattern => (n.child? .value).toList
  | _ => []

theorem countAll_elements_le (n : Node) :
    Node.countAll (elements n) ≤ Node.countAll n.children := by
  have hparts : Node.countAll n.parts ≤ Node.countAll n.children :=
    Node.countAll_filter_le _ n.children
  unfold elements
  split
  · exact hparts
  · exact hparts
  · exact hparts
  · exact Node.countAll_find?_le _ n.children
  · exact Nat.zero_le _

/-- The names found so far, and the nodes that are still to be searched. -/
structure Search where
  names : List Node
  stack : List Node
  deriving Inhabited

namespace Search

/-- Searches the node on top of the stack. Its elements come onto the stack, the last one first. -/
def next : Search → Search
  | ⟨names, []⟩ => ⟨names, []⟩
  | ⟨names, n :: stack⟩ =>
    ⟨if isBinding n.kind then names ++ [n] else names,
      (elements n).reverse.foldl (fun waiting e => e :: waiting) stack⟩

theorem next_cons (names : List Node) (n : Node) (stack : List Node) : next ⟨names, n :: stack⟩ =
    ⟨if isBinding n.kind then names ++ [n] else names, elements n ++ stack⟩ := by
  simp [next]

theorem countAll_next_lt (names : List Node) (n : Node) (stack : List Node) :
    Node.countAll (next ⟨names, n :: stack⟩).stack < Node.countAll (n :: stack) := by
  have helements := countAll_elements_le n
  rw [next_cons, Node.countAll_append, Node.countAll, Node.count_eq]
  omega

def run : Search → List Node
  | ⟨names, []⟩ => names
  | ⟨names, n :: stack⟩ => run (next ⟨names, n :: stack⟩)
termination_by s => Node.countAll s.stack
decreasing_by exact countAll_next_lt names n stack

end Search

/-- The names that a pattern binds, but for those under a default value. -/
def boundNames (pattern : Node) : List Node := Search.run ⟨[], [pattern]⟩

variable (file : SourceFile)

def diagnostic (cause : String → Cause) (name place : Node) : Diagnostic :=
  ⟨cause (file.textOf name), file.location place⟩

/-- What a parameter without a type leaves open. -/
def ofParameter (p : Node) : List Diagnostic :=
  if !(p.kind = .requiredParameter || p.kind = .optionalParameter) || p.has .type then []
  else match p.child? .pattern with
    | none => []
    | some pattern =>
      match pattern.kind, p.has .value with
      | .restPattern, _ =>
        [⟨.rest ((pattern.parts.head?.map file.textOf).getD ""), file.location pattern⟩]
      | .objectPattern, false | .arrayPattern, false =>
        (boundNames pattern).map fun name => diagnostic file .element name name
      | .identifier, false => [diagnostic file .parameter pattern pattern]
      | _, _ => []

def ofFunction (p : Node.Place) : List Diagnostic :=
  if !p.node.has .body || isContextual p then []
  else match p.node.child? .parameter, p.node.child? .parameters with
    | some only, _ => if only.kind = .identifier then [diagnostic file .parameter only only] else []
    | none, some all => all.parts.flatMap (ofParameter file)
    | none, none => []

/-- `functions` are the names of the functions that the file declares. -/
def ofNew (functions : List String) (n : Node) : List Diagnostic :=
  match n.child? .constructor with
  | some target =>
    if target.kind = .identifier && functions.contains (file.textOf target) then
      [⟨.construct, file.location n⟩]
    else []
  | none => []

def isBare (n : Node) : Bool := !n.has .type && !n.has .value

def ofExport (n : Node) : List Diagnostic :=
  match n.child? .declaration with
  | some d =>
    if d.kind = .lexicalDeclaration || d.kind = .variableDeclaration then
      ((d.parts.filter fun v => v.kind = .variableDeclarator &&
        isBare v).filterMap (·.child? .name)).map
        fun name => diagnostic file .exported name name
    else []
  | none => []

def ofField (n : Node) : List Diagnostic :=
  if isBare n then (n.child? .name).toList.map fun name => diagnostic file .member name name else []

def ofPlace (functions : List String) (p : Node.Place) : List Diagnostic :=
  if p.node.kind.isFunctionLike then ofFunction file p
  else match p.node.kind with
    | .newExpression => ofNew file functions p.node
    | .exportStatement => ofExport file p.node
    | .publicFieldDefinition => ofField file p.node
    | _ => []

def declaredFunctions : List String :=
  ((file.root.preorder.filter (·.kind = .functionDeclaration)).filterMap (·.child? .name)).map
    file.textOf

/-- Every declaration of a file whose type is left open. -/
def diagnostics : List Diagnostic :=
  (Node.places [] file.root).flatMap (ofPlace file (declaredFunctions file))

/-- The diagnostics whose code counts. -/
def implicit (tables : Tables) : List Violation :=
  ((diagnostics file).filter fun d => tables.implicitAnyCodes.contains d.cause.code).map fun d =>
    (Violation.error .noImplicitAny d.cause.message).located d.place

end QualityGate.AnyType
