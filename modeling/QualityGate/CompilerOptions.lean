import QualityGate.Json.Record
import QualityGate.Path

/-!
Compiler options of a project, as its configuration files declare them and as they are in effect
after one file extends others.
-/
namespace QualityGate

/-- Aliases of modules: patterns with the places to look in, in the order of patterns. -/
abbrev AliasTable := List (String × List String)

namespace AliasTable

/-- Declares a pattern; the last declaration of a pattern counts. -/
def insert (key : String) (targets : List String) : AliasTable → AliasTable
  | [] => [(key, targets)]
  | (k, ts) :: rest =>
    if key = k then (k, targets) :: rest
    else if key < k then (key, targets) :: (k, ts) :: rest
    else (k, ts) :: insert key targets rest

end AliasTable

structure CompilerOptions where
  strict : Option Bool
  noImplicitAny : Option Bool
  /-- The folder that plain module names start from. -/
  baseUrl : Option Path
  paths : AliasTable
  /-- The folder that the targets of `paths` start from: `baseUrl`, or else that of the file with
  `paths`. -/
  pathsBase : Option Path
  deriving DecidableEq, Repr

namespace CompilerOptions

def none : CompilerOptions := ⟨.none, .none, .none, [], .none⟩

def strictEnabled (o : CompilerOptions) : Bool := o.strict == some true

/-- Without a word of its own this follows `strict`. -/
def noImplicitAnyEnabled (o : CompilerOptions) : Bool := o.noImplicitAny.getD o.strictEnabled

/-- The options of a file that extends one with the options `base`. -/
def extending (own base : CompilerOptions) : CompilerOptions where
  strict := own.strict <|> base.strict
  noImplicitAny := own.noImplicitAny <|> base.noImplicitAny
  baseUrl := own.baseUrl <|> base.baseUrl
  paths := if own.paths.isEmpty then base.paths else own.paths
  pathsBase :=
    match own.baseUrl with
    | some url => some url
    | .none => if own.paths.isEmpty then base.pathsBase else own.pathsBase

/-- What one file declares. -/
structure Declared where
  strict : Option Bool
  noImplicitAny : Option Bool
  baseUrl : Option String
  paths : Option AliasTable

namespace Declared

def nothing : Declared := ⟨.none, .none, .none, .none⟩

/-- The options of a file in the folder `dir` that extends nothing. -/
def options (d : Declared) (dir : Path) : CompilerOptions :=
  let paths := d.paths.getD []
  { strict := d.strict
    noImplicitAny := d.noImplicitAny
    baseUrl := d.baseUrl.map dir.join
    paths
    pathsBase := if paths.isEmpty then .none else some dir }

def readTargets : Json → Option (List String)
  | .array items => items.mapM Json.text?
  | _ => .none

def readPaths : Json → Option AliasTable
  | .object entries =>
    entries.foldlM (fun table e => do return table.insert (← e.1) (← readTargets e.2)) []
  | _ => .none

def ofValues? (strict noImplicitAny baseUrl paths : Option Json) : Option Declared := do
  return {
    strict := ← Json.reading Json.boolean? strict
    noImplicitAny := ← Json.reading Json.boolean? noImplicitAny
    baseUrl := ← Json.reading Json.text? baseUrl
    paths := ← Json.reading readPaths paths }

/-- Reads an object of options, or a list of all of them in order. -/
def ofJson? : Json → Option Declared
  | .object entries => do
    guard (Json.haveKeys entries)
    ofValues? (← Json.field? entries "strict") (← Json.field? entries "noImplicitAny")
      (← Json.field? entries "baseUrl") (← Json.field? entries "paths")
  | .array [a, b, c, d] => ofValues? a.present? b.present? c.present? d.present?
  | _ => .none

end Declared
end CompilerOptions
end QualityGate
