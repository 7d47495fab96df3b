import QualityGate.Structure
import QualityGate.Imports

/-!
Design tokens: values that are written out where a token is expected, references to tokens, and
tokens that nothing refers to.
-/
namespace QualityGate.DesignToken

open Syntax

structure Metrics where
  references : Nat
  hardcoded : Nat
  deriving DecidableEq, Repr

namespace Metrics

def zero : Metrics := ⟨0, 0⟩

def merge (a b : Metrics) : Metrics := ⟨a.references + b.references, a.hardcoded + b.hardcoded⟩

end Metrics

/-- The pairs of the object that ends an animation call, with their keys. -/
def tweenPairs (scope : Scope) (call : Node) : List (String × Node) :=
  match Structure.animationCall? scope call, call.child? .arguments with
  | some _, some arguments =>
    match arguments.parts.getLast?.map Node.unwrapped with
    | some last =>
      if last.kind = .object then
        (last.parts.filter (·.kind = .pair)).filterMap fun p =>
          (scope.file.propertyKey? p).map fun key => (key, p)
      else []
    | none => []
  | _, _ => []

/-- A rule on the entries `key` of animation calls that are written as a literal of the given
kind. -/
def tweenRule (rule : Rule) (key : String) (kind : Kind) (message : String) : NodeRule where
  interested k := k = .callExpression
  check scope _ n :=
    ((tweenPairs scope n).filter fun p =>
        p.1 == key && ((p.2.child? .value).map (·.kind)) == some kind).map fun p =>
      (Violation.error rule message).located (scope.file.location p.2)

def hardcodedDuration : NodeRule :=
  tweenRule .hardcodedDuration "duration" .number
    "Hardcoded duration in gsap call. Use token reference instead."

def hardcodedEasing : NodeRule :=
  tweenRule .hardcodedEasing "ease" .string
    "Hardcoded easing in gsap call. Use token reference instead."

/-- What holds a literal color, if it is an attribute or an entry of a style object that does. -/
def colorHolder? (file : SourceFile) (n : Node) : Option String :=
  if n.kind = .jsxAttribute then
    match ((file.nameAndValue n).2.bind file.stringValue?) with
    | some v => if Color.hasLiteral v then some "JSX" else none
    | none => none
  else
    match file.propertyKey? n, n.child? .value with
    | some key, some value =>
      if !Tables.tokenColorProps.contains key then none
      else match file.stringValue? value, file.templateValue? value " " with
        | some v, _ => if Color.hasLiteral v then some "style object" else none
        | none, some v => if Color.hasLiteral v then some "template literal" else none
        | none, none => none
    | _, _ => none

def hardcodedColor : NodeRule where
  interested kind := kind = .jsxAttribute || kind = .pair
  check scope _ n :=
    match colorHolder? scope.file n with
    | some holder =>
      [(Violation.error .hardcodedColorInJsx
        ("Hardcoded color value in " ++ holder ++ ". Use design token instead.")).located
          (scope.file.location n)]
    | none => []

def rules : List NodeRule := [hardcodedDuration, hardcodedEasing, hardcodedColor]

/-- The name in `tokens.name` or `tokens['name']`. -/
def accessed? (file : SourceFile) (n : Node) : Option String := do
  let object ← n.child? .object
  guard (object.kind = .identifier && Tables.tokenObjects.contains (file.textOf object))
  match n.kind with
  | .memberExpression => (n.child? .property).map file.textOf
  | .subscriptExpression => (n.child? .index).bind file.stringValue?
  | _ => none

/-- Whether the last part of a module's name, up to its first point, is a name for tokens. -/
def isTokensModule (source : String) : Bool :=
  let last := ((Path.split source.toList).getLast?).getD []
  Tables.tokenObjects.contains (String.ofList (last.takeWhile (· != '.')))

/-- Accesses to tokens, and imports of single tokens. -/
def countReferences (file : SourceFile) : Nat :=
  (file.root.preorder.filter fun n => (accessed? file n).isSome).length
    + (((Import.ofFile file).filter fun i => isTokensModule i.source).flatMap fun i =>
        i.bindings.filter fun b => b.imported != "*").length

def check (settings : Settings) (tables : Tables) (file : SourceFile) : List Violation × Metrics :=
  let found := NodeRule.run rules ⟨file, settings, tables⟩
  (found, ⟨countReferences file, (found.filter (·.rule == Rule.hardcodedColorInJsx.id)).length⟩)

/-- `a-b` as `aB`. -/
def camelCase : Bool → List Char → List Char
  | _, [] => []
  | raised, c :: cs =>
    if c = '-' then camelCase true cs
    else (if raised then Text.upper [c] else [c]) ++ camelCase false cs

/-- The names that an export statement declares. -/
def declaredNames (file : SourceFile) (declaration : Node) : List String :=
  if declaration.kind = .lexicalDeclaration || declaration.kind = .variableDeclaration then
    ((declaration.parts.filterMap (·.child? .name)).filter (·.kind = .identifier)).map file.textOf
  else ((declaration.child? .name).map file.textOf).toList

/-- The names by which the entries of an export clause are known outside. -/
def clauseNames (file : SourceFile) (clause : Node) : List String :=
  clause.parts.filterMap fun spec => ((spec.child? .alias) <|> (spec.child? .name)).map file.textOf

def dropRepeats : List String → List String
  | a :: b :: rest => if a = b then dropRepeats (b :: rest) else a :: dropRepeats (b :: rest)
  | rest => rest

def exportedNames (file : SourceFile) : List String :=
  dropRepeats <| (file.root.parts.filter (·.kind = .exportStatement)).flatMap fun n =>
    ((n.child? .declaration).map (declaredNames file)).getD []
      ++ (n.parts.filter (·.kind = .exportClause)).flatMap (clauseNames file)

/-- The names of tokens that a node refers to. -/
def usedAt (file : SourceFile) (n : Node) : List String :=
  (accessed? file n).toList
    ++ match file.stringValue? n with
      | some v => (Color.variableNames 0 v.toList).map fun name =>
        String.ofList (camelCase false name)
      | none => []

def usedIn (file : SourceFile) : List String :=
  file.root.preorder.flatMap (usedAt file)
    ++ ((Import.ofFile file).flatMap (·.bindings)).flatMap fun b => [b.imported, b.bound]

def tokensFile? (settings : Settings) (files : List SourceFile) : Option SourceFile :=
  files.find? fun f =>
    match f.path.fileName? with
    | some name => settings.tokensFileNames.contains name
    | none => false

/-- A breach for every exported token that no other file refers to. -/
def unused (settings : Settings) (files : List SourceFile) : List Violation :=
  match tokensFile? settings files with
  | none => []
  | some tokens =>
    let used := (files.filter fun f => !f.path.same tokens.path).flatMap usedIn
    ((exportedNames tokens).filter fun name => !used.contains name).map fun name =>
      Violation.warning .tokenDefinedNotUsed
        ("Token \"" ++ name ++ "\" is defined but not used in the project")

end QualityGate.DesignToken
