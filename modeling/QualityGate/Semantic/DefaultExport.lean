import QualityGate.Violation

/-!
Default exports without a name of their own.
-/
namespace QualityGate.DefaultExport

open Syntax

def hasKeyword (file : SourceFile) (n : Node) (keyword : String) : Bool :=
  n.children.any fun c => !c.named && file.textOf c == keyword

/-- What is wrong with the value of a default export. -/
def fault? (value : Node) : Option String :=
  match value.kind with
  | .arrowFunction => some "Default export should not be an arrow function"
  | .functionExpression =>
    if value.has .name then none else some "Default export should not be an anonymous function"
  | _ => none

def ofValue (file : SourceFile) (n : Node) : List Violation :=
  match hasKeyword file n "default", n.child? .value with
  | true, some value => (fault? value).toList.map fun message =>
      (Violation.warning .noDefaultExportAnon message).located (file.location value)
  | _, _ => []

/-- Whether an entry of an export clause takes or gives the name `default`. -/
def namesDefault (file : SourceFile) (spec : Node) : Bool :=
  (spec.child? .name).map file.textOf == some "default"
    || (spec.child? .alias).map file.textOf == some "default"

def ofClauses (file : SourceFile) (n : Node) : List Violation :=
  if hasKeyword file n "type" then []
  else (((n.parts.filter (·.kind = .exportClause)).flatMap Node.parts).filter
    (namesDefault file)).map
    fun spec => (Violation.warning .noDefaultExportAnon
      "Default export should be explicitly named").located (file.location spec)

def check (file : SourceFile) : List Violation :=
  (file.root.parts.filter (·.kind = .exportStatement)).flatMap fun n =>
    ofValue file n ++ ofClauses file n

end QualityGate.DefaultExport
