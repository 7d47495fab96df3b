import QualityGate.Syntax.Grammar.Statements

/-!
The grammar as a whole: `phrase` ties its parts together, `programOf` reads a text from end to end.
-/
namespace QualityGate.Syntax
namespace Grammar
open QualityGate.Syntax.Parser

/-- The parser of a phrase that holds at most `depth` phrases inside each other. -/
def phrase : Nat → Grammar
  | 0, _ => fail
  | depth + 1, p => fun e c =>
    let g := phrase depth
    let tail : Nodes := fun e c => classTail g e.limit e c
    match p with
    | .statement => statement g tail e c
    | .expressions => expressions g e c
    | .expression => expression g e c
    | .unary => unary g (fun e c => operand g tail e.limit e c) e c
    | .type => conditionalType g e c
    | .unionType => unionType g e c
    | .pattern => pattern g e c
    | .element => element g e c

def finish : Nodes := guarded (fun _ c => c.token == .finish) fun _ => nothing

/-- Length of a first line that names an interpreter. -/
def interpreterLine : List Char → Nat
  | '#' :: '!' :: cs => Token.run (!isLineEnd ·) cs + 2
  | _ => 0

def interpreter : Nodes := fun e c =>
  match interpreterLine c.gap with
  | 0 => nothing e c
  | n => rawLeaf n e c

def program (depth : Nat) : Nodes :=
  branch .program (interpreter >> statements (phrase depth) >> finish)

end Grammar

/-- The root of the tree of `text`, or the offset of the token where reading ends. No line end
closes a statement behind the offsets in `sealed`. -/
def programOf (dialect : Dialect) (sealed : List Nat) (text : List Char) : Except Nat Node :=
  let limit := text.length + 1
  let env : Env := ⟨dialect, limit, true, false, sealed⟩
  match Grammar.program (4 * limit) env (Cursor.ofText text) with
  | .done [root] _ => .ok root
  | .done _ next => .error next.furthest
  | .stuck furthest => .error furthest

end QualityGate.Syntax
