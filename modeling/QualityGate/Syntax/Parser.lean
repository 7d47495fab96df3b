import QualityGate.Syntax.Node
import QualityGate.Syntax.Token

/-!
Parsers that read a run of sibling nodes. `p >> q` reads `p` and then `q`, `p <|> q` reads `q` where
`p` does not fit. A parser that fits nowhere reports the furthest token that any alternative looked
at.
-/
namespace QualityGate.Syntax

/-- The languages told apart by the grammar. -/
structure Dialect where
  /-- Type annotations are read. -/
  typed : Bool
  /-- `<` in front of an operand opens an element. -/
  markup : Bool
  deriving DecidableEq, Repr

/-- A place between two tokens, with the token that follows. -/
structure Cursor where
  /-- The input from the end of the last token on. -/
  gap : List Char
  behind : Nat
  token : Token
  size : Nat
  /-- The input from the next token on. -/
  here : List Char
  start : Nat
  newline : Bool
  furthest : Nat
  /-- Whether the last token is a closing brace. -/
  closed : Bool

namespace Cursor

def after (gap : List Char) (behind furthest : Nat) (closed : Bool) : Cursor :=
  let blank := Trivia.skip .code 0 false gap
  let found := if blank.closed then Token.scan blank.rest else (.stray, 0)
  ⟨gap, behind, found.1, found.2, blank.rest, behind + blank.size, blank.newline, furthest, closed⟩

def ofText (cs : List Char) : Cursor := after cs 0 0 false

/-- Moves past the first `n` characters of the next token. -/
def take (c : Cursor) (n : Nat) : Cursor :=
  after (c.here.drop n) (c.start + n) c.furthest (c.token == .punct "\x7d")

/-- Moves past `n` characters from the end of the last token on, blanks included. -/
def takeRaw (c : Cursor) (n : Nat) : Cursor :=
  after (c.gap.drop n) (c.behind + n) c.furthest false

end Cursor

structure Env where
  dialect : Dialect
  /-- Bounds every repetition. -/
  limit : Nat
  /-- A line end may close the phrase that is being read. -/
  lineEnds : Bool
  /-- Functions in arrow form are read without a result type. -/
  bareArrows : Bool
  /-- Offsets behind which no line end closes a statement. -/
  sealed : List Nat

inductive Reply (α : Type)
  | done (value : α) (next : Cursor)
  | stuck (furthest : Nat)

def Parser (α : Type) := Env → Cursor → Reply α

abbrev Nodes := Parser (List Node)

namespace Parser

variable {α β : Type}

@[inline] protected def pure (a : α) : Parser α := fun _ c => .done a c

@[inline] protected def bind (p : Parser α) (f : α → Parser β) : Parser β := fun e c =>
  match p e c with
  | .done a next => f a e next
  | .stuck n => .stuck n

instance : Monad Parser where
  pure := Parser.pure
  bind := Parser.bind

@[inline] protected def orElse (p : Parser α) (q : Unit → Parser α) : Parser α := fun e c =>
  match p e c with
  | .done a next => .done a next
  | .stuck n => q () e { c with furthest := max n c.furthest }

instance : OrElse (Parser α) := ⟨Parser.orElse⟩

@[inline] protected def andThen (p : Nodes) (q : Unit → Nodes) : Nodes := fun e c =>
  match p e c with
  | .stuck n => .stuck n
  | .done ns next =>
    match q () e next with
    | .stuck n => .stuck n
    | .done ms last => .done (ns ++ ms) last

instance : AndThen Nodes := ⟨Parser.andThen⟩

def fail : Parser α := fun _ c => .stuck (max c.start c.furthest)

def nothing : Nodes := fun _ c => .done [] c

/-- The parser that the next token calls for. -/
@[inline] def onToken (f : Token → Parser α) : Parser α := fun e c => f c.token e c

@[inline] def onDialect (f : Dialect → Parser α) : Parser α := fun e c => f e.dialect e c

/-- `p` where the condition holds. -/
@[inline] def guarded (ok : Env → Cursor → Bool) (p : Unit → Parser α) : Parser α := fun e c =>
  if ok e c then p () e c else .stuck (max c.start c.furthest)

def typed (p : Unit → Nodes) : Nodes := guarded (fun e _ => e.dialect.typed) p

/-- `p` where types are written, nothing elsewhere. -/
def ifTyped (p : Unit → Nodes) : Nodes :=
  fun e c => if e.dialect.typed then p () e c else .done [] c

def ahead (p : Nodes) : Nodes := fun e c =>
  match p e c with
  | .done _ next => .done [] { c with furthest := max next.furthest c.furthest }
  | .stuck n => .stuck n

/-- Inside brackets a line end closes nothing. -/
def bracketed (p : Nodes) : Nodes :=
  fun e c => p { e with lineEnds := false, bareArrows := false } c

/-- Among statements a line end may close the last one. -/
def lines (p : Nodes) : Nodes := fun e c => p { e with lineEnds := true, bareArrows := false } c

def bare (p : Nodes) : Nodes := fun e c => p { e with bareArrows := true } c

/-- The first `n` characters of the next token as one leaf. -/
def leaf (kind : Kind) (named : Bool) (n : Nat) : Nodes := fun _ c =>
  .done [Node.leaf kind named c.start (c.start + n)] (c.take n)

def rawLeaf (n : Nat) : Nodes := fun _ c =>
  .done [Node.leaf .other true c.behind (c.behind + n)] (c.takeRaw n)

/-- The mark `s` right behind the last token. -/
def rawMark (s : String) : Nodes :=
  guarded (fun _ c => s.toList.isPrefixOf c.gap) fun _ _ c =>
    .done [Node.leaf .other false c.behind (c.behind + s.toList.length)]
      (c.takeRaw s.toList.length)

def token (kind : Kind) (named : Bool) : Nodes :=
  guarded (fun _ c => 0 < c.size) fun _ e c => leaf kind named c.size e c

def mark (s : String) : Nodes :=
  guarded (fun _ c => c.token == .punct s) fun _ => token .other false

def keyword (s : String) : Nodes :=
  guarded (fun _ c => c.token == .word s) fun _ => token .other false

/-- The single character `x`, also where a longer mark begins with it. -/
def character (x : Char) : Nodes :=
  guarded (fun _ c => c.here.head? == some x) fun _ => leaf .other false 1

def branch (kind : Kind) (p : Nodes) : Nodes := fun e c =>
  match p e c with
  | .done ns next => .done [Node.branch kind ns] next
  | .stuck n => .stuck n

/-- `branch`, but a single node stays as it is. -/
def group (kind : Kind) (p : Nodes) : Nodes := fun e c =>
  match p e c with
  | .done [n] next => .done [n] next
  | .done ns next => .done [Node.branch kind ns] next
  | .stuck n => .stuck n

/-- Gives the first node that `p` reads its role. -/
def roled (role : Role) (p : Nodes) : Nodes := fun e c =>
  match p e c with
  | .done (n :: ns) next => .done (n.withRole role :: ns) next
  | r => r

@[inline] def opt (p : Nodes) : Nodes := p <|> nothing

/-- `p` as often as it fits and moves on. -/
def many (p : Nodes) : Nodes := fun e c => go p e.limit e c
where
  go (p : Nodes) : Nat → Nodes
    | 0 => nothing
    | fuel + 1 => fun e c =>
      match p e c with
      | .stuck n => .done [] { c with furthest := max n c.furthest }
      | .done ns next =>
        if next.behind ≤ c.behind then .done [] { c with furthest := max next.furthest c.furthest }
        else match go p fuel e next with
          | .stuck n => .stuck n
          | .done ms last => .done (ns ++ ms) last

def sepBy1 (sep : String) (p : Nodes) : Nodes := p >> many (mark sep >> p)

/-- Entries divided by commas, any of which may be left out. -/
def commaSep (p : Nodes) : Nodes := opt p >> many (mark "," >> opt p)

/-- Extends the one node read by `p` as long as `step` fits. -/
def chain (p : Nodes) (step : Node → Nodes) : Nodes := fun e c =>
  match p e c with
  | .done [n] next => go step e.limit n e next
  | r => r
where
  go (step : Node → Nodes) : Nat → Node → Nodes
    | 0, n => Parser.pure [n]
    | fuel + 1, n => fun e c =>
      match step n e c with
      | .done [m] next => go step fuel m e next
      | .done _ next => .done [n] { c with furthest := max next.furthest c.furthest }
      | .stuck far => .done [n] { c with furthest := max far c.furthest }

/-- A node of the given kind over `left`, which is read already, and what `p` reads. -/
def extend (kind : Kind) (role : Role) (left : Node) (p : Nodes) : Nodes := fun e c =>
  match p e c with
  | .done ns next => .done [Node.branch kind (left.withRole role :: ns)] next
  | .stuck n => .stuck n

/-- Goes on with what `f` says of the one node that `p` reads. -/
def onNode (p : Nodes) (f : Node → Nodes) : Nodes := fun e c =>
  match p e c with
  | .done [n] next => f n e next
  | r => r

def onNodes (p : Nodes) (f : List Node → Nodes) : Nodes := fun e c =>
  match p e c with
  | .done ns next => f ns e next
  | .stuck n => .stuck n

/-- A node of the given kind over `before`, which are read already, and what `p` reads. -/
def close (kind : Kind) (before : List Node) (p : Nodes) : Nodes := fun e c =>
  match p e c with
  | .done ns next => .done [Node.branch kind (before ++ ns)] next
  | .stuck n => .stuck n

def mapped (f : Node → Node) (p : Nodes) : Nodes := fun e c =>
  match p e c with
  | .done ns next => .done (ns.map f) next
  | .stuck n => .stuck n

/-- A line end, a closing brace or the end of the text stands for a semicolon here. -/
def closes (e : Env) (c : Cursor) : Bool :=
  !e.sealed.contains c.behind && match c.token with
  | .finish => true
  | .punct "\x7d" => true
  | t => c.newline && !continues e.dialect t c.here
where
  /-- Marks that a line end before them does not close. -/
  continues (d : Dialect) (t : Token) (here : List Char) : Bool :=
    match t with
    | .word "in" | .word "instanceof" => true
    | .template => true
    | .number => d.typed && here.head? == some '.'
    | .punct "++" | .punct "--" | .punct "!" => false
    | .punct "(" | .punct "[" => !d.typed
    | .punct s =>
      match s.toList with
      | x :: _ => ",:;*%><=?^|&/.+-!".toList.contains x
      | [] => false
    | _ => false

def semicolon : Nodes := mark ";" <|> guarded closes fun _ => nothing

/-- The next token continues the phrase although it may stand on a new line. -/
def sameLine (p : Unit → Nodes) : Nodes := guarded (fun e c => !(e.lineEnds && c.newline)) p

end Parser
end QualityGate.Syntax
