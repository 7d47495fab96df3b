import QualityGate.Syntax.Node
import QualityGate.Syntax.Character

/-!
Comments as nodes. Tokens cover everything but blanks and comments, so the comments of a text stand
between neighbouring nodes; a comment belongs to the smallest node that has tokens on both its
sides, and to the root if there is none.
-/
namespace QualityGate.Syntax.Comments

inductive Mode
  | code
  | line (opened : Nat)
  | block (opened : Nat)

/-- The comments of a text that holds nothing else but blanks, `offset` being the offset of its
start. -/
def find : Mode → Nat → List Char → List Node
  | .code, offset, '/' :: '/' :: cs => find (.line offset) (offset + 2) cs
  | .code, offset, '/' :: '*' :: cs => find (.block offset) (offset + 2) cs
  | .code, offset, _ :: cs => find .code (offset + 1) cs
  | .line opened, offset, c :: cs =>
    if isLineEnd c then Node.leaf .comment true opened offset :: find .code (offset + 1) cs
    else find (.line opened) (offset + 1) cs
  | .block opened, offset, '*' :: '/' :: cs =>
    Node.leaf .comment true opened (offset + 2) :: find .code (offset + 2) cs
  | .block opened, offset, _ :: cs => find (.block opened) (offset + 1) cs
  | .line opened, offset, [] => [Node.leaf .comment true opened offset]
  | _, _, [] => []

def between (text : Array Char) (start stop : Nat) : List Node :=
  if start < stop then find .code start (text.extract start stop).toList else []

mutual
def insert (text : Array Char) : Node → Node
  | ⟨kind, role, named, start, stop, children⟩ =>
    ⟨kind, role, named, start, stop, insertAll text children⟩

def insertAll (text : Array Char) : List Node → List Node
  | [] => []
  | [n] => [insert text n]
  | n :: m :: ns => insert text n :: (between text n.stop m.start ++ insertAll text (m :: ns))
end

/-- `insert`, and the comments before and after all tokens as children of the root. -/
def insertRoot (text : Array Char) (root : Node) : Node :=
  let inner := insert text root
  match root.children with
  | [] => Node.branch .program (between text 0 text.size)
  | _ => Node.branch .program
      (between text 0 root.start ++ inner.children ++ between text root.stop text.size)

end QualityGate.Syntax.Comments
