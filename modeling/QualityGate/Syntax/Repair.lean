import QualityGate.Syntax.Grammar

/-!
What is wrong with a text that is no program. The fault is where the cheapest change to it applies:
a token that is put in, or a run of tokens that is taken out.
-/
namespace QualityGate.Syntax

/-- Characters that are in the way; no character where a token is missing. -/
structure Fault where
  start : Nat
  stop : Nat
  deriving DecidableEq, Repr

namespace Repair

/-- A text on the way to a program. -/
structure Draft where
  text : List Char
  /-- Offsets behind which no line end closes a statement, as there was none in the text before. -/
  sealed : List Nat

/-- The offset of the token where reading a draft ends; nothing if it is a program. -/
def Draft.failure? (dialect : Dialect) (d : Draft) : Option Nat :=
  match programOf dialect d.sealed d.text with
  | .ok _ => none
  | .error offset => some offset

structure Piece where
  token : Token
  start : Nat
  stop : Nat
  /-- How many brackets are open in front of it. -/
  depth : Nat
  newline : Bool

def isQuote (c : Cursor) : Bool := c.here.head? == some '\x22' || c.here.head? == some '\x27'

/-- The length of the next token; a string that is not closed goes on to the end of its line. -/
def extent (c : Cursor) : Nat :=
  if c.token == .stray && isQuote c then Token.run (!isLineEnd ·) c.here else c.size

def depthAfter (depth : Nat) : Token → Nat
  | .punct "(" | .punct "[" | .punct "\x7b" => depth + 1
  | .punct ")" | .punct "]" | .punct "\x7d" => depth - 1
  | _ => depth

def pieces : Nat → Nat → Cursor → List Piece
  | 0, _, _ => []
  | fuel + 1, depth, c =>
    if extent c = 0 then []
    else ⟨c.token, c.start, c.start + extent c, depth, c.newline⟩ ::
      pieces fuel (depthAfter depth c.token) (c.take (extent c))

structure Change where
  cost : Nat
  fault : Fault
  result : Draft
  /-- The offset in the result of the token behind the change. -/
  next : Nat
  /-- The offset in the result of the token behind that one. -/
  beyond : Nat

/-- What a recovery costs, apart from what it puts in or takes out. -/
def recoveryCost : Nat := 500

def missingCost : Nat := 110

/-- The words that may be missing: those that end a phrase. -/
def missing : List String := ["x", ")", "]", "\x7d", ";", ">", "/>"]

/-- Marks in front of which a name is no phrase of its own. -/
def bindsName (t : Token) : Bool := t == .punct "=" || t == .punct "=>"

def lengthens (t : Token) : Bool :=
  match t with
  | .punct s =>
    ["(", "[", ".", "?.", "+", "-", "*", "/", "%", "**", "<", ">", "<=", ">=", "==", "!=", "===",
      "!==", "&&", "||", "??", "&", "|", "^", "<<", ">>", ">>>"].contains s
  | .word s => ["as", "satisfies", "instanceof", "in"].contains s
  | _ => false

def isOperand : Token → Bool
  | .word _ | .number | .string => true
  | _ => false

section
variable (dialect : Dialect) (d : Draft) (ps : Array Piece)

def endBefore : Nat → Nat
  | 0 => 0
  | i + 1 => (ps[i]?.map (·.stop)).getD 0

def startOf (i : Nat) : Nat := (ps[i]?.map (·.start)).getD d.text.length

def tokenAt (i : Nat) : Token := (ps[i]?.map (·.token)).getD .finish

/-- Puts a word in front of the token `i`, right behind the one before it. -/
def insertion (i : Nat) (word : String) : Change :=
  let left := endBefore ps i
  let stop := left + 1 + word.length
  { cost := recoveryCost + missingCost
    fault := ⟨left, left⟩
    result := ⟨d.text.take left ++ ' ' :: word.toList ++ ' ' :: d.text.drop (startOf d ps i),
      stop :: d.sealed⟩
    next := stop + 1
    beyond := stop + 1 + (startOf d ps (i + 1) - startOf d ps i) }

def insertions (i : Nat) : List Change :=
  (missing.filter fun word => !(word == "x" && bindsName (tokenAt ps i))).map (insertion d ps i)

/-- How many phrases the tokens from `j` up to `i` are. -/
def phrases (j i : Nat) : Nat :=
  let run := (d.text.drop (startOf d ps j)).take (endBefore ps i - startOf d ps j)
  if j + 1 < i && (programOf dialect [] run).toOption.isSome then 1 else i - j

/-- Takes out the tokens from `j` up to `k`, where reading ends at `i`. -/
def removal (i j k : Nat) : Change :=
  let start := startOf d ps j
  let stop := endBefore ps k
  let run := (d.text.drop start).take (stop - start)
  let newline := (ps[j]?.map (·.newline)) == some true
  { cost := recoveryCost + (String.ofList run).utf8ByteSize + 30 * run.count '\n'
      + 100 * (phrases dialect d ps j i + (k - i))
    fault := ⟨start, stop⟩
    result := ⟨d.text.take start ++ List.replicate (stop - start) ' ' ++ d.text.drop stop,
      if newline then d.sealed else endBefore ps j :: d.sealed⟩
    next := startOf d ps k
    beyond := startOf d ps (k + 1) }

/-- Whether tokens from `j` up to `i` may be taken out although a token may be missing behind them:
not where they would lengthen a phrase, and not the colon behind a key. -/
def isDropped (i j : Nat) : Bool :=
  lengthens (tokenAt ps j)
    || (tokenAt ps j == .punct ":" && (tokenAt ps i == .punct "\x7d" || tokenAt ps i == .punct ","))

def forward (i : Nat) : List Change :=
  if i + 1 ≤ ps.size then [removal dialect d ps i i (i + 1)] else []

/-- Runs of tokens around the token `i` that may be in the way: short ones, and those that reach to
the end of the text. -/
def runs (i : Nat) : List Change :=
  let short := ((List.range (i + 1)).drop (i - 16)).flatMap fun j =>
    ((List.range 8).map (i + 1 + ·)).filterMap fun k =>
      if k < ps.size then some (removal dialect d ps i j k) else none
  let long := ((List.range (i + 1)).filter fun j =>
    j = 0 || (j < ps.size && (ps[j]?.map (·.depth)) == some 0)).map fun j =>
      removal dialect d ps i j ps.size
  short ++ long

end

/-- Whether reading gets past the token behind the change. -/
def Change.fits (dialect : Dialect) (c : Change) : Bool :=
  match c.result.failure? dialect with
  | none => true
  | some offset => offset > c.next

/-- Whether reading gets past two tokens behind the change. -/
def Change.leads (dialect : Dialect) (c : Change) : Bool :=
  match c.result.failure? dialect with
  | none => true
  | some offset => offset > c.beyond

def Change.completes (dialect : Dialect) (c : Change) : Bool := (c.result.failure? dialect).isNone

/-- The number of the token where reading ends; a string that is not closed ends it behind
itself. -/
def failingPiece (ps : Array Piece) (offset : Nat) : Nat :=
  match ps.findIdx? (offset ≤ ·.start) with
  | some i => if (ps[i]?.map fun p => p.token == .stray && p.start + 1 < p.stop) ==
    some true then i + 1 else i
  | none => ps.size

/-- The changes next to the token `i` after which reading goes on: a missing token, the shortest run
of tokens in front of it, and the token itself, unless it could as well stand for the one before
it. -/
def steps (dialect : Dialect) (d : Draft) (ps : Array Piece) (i : Nat) : List Change :=
  let inserted := ((insertions d ps i).find? (Change.fits dialect)).toList
  let before :=
    (((List.range i).drop (i - 16)).reverse.filter fun j => inserted.isEmpty ||
      !isDropped ps i j).findSome?
    fun j =>
      let c := removal dialect d ps i j i
      if c.fits dialect then some (j, c) else none
  let doubled :=
    (before.map fun b => b.1 + 1 = i && isOperand (tokenAt ps b.1) && isOperand (tokenAt ps i))
    == some true
  inserted ++ (before.map (·.2)).toList
    ++ (if doubled then [] else (forward dialect d ps i).filter (Change.fits dialect))

def cheapestOf (first : Nat × Fault) (others : List (Nat × Fault)) : Nat × Fault :=
  others.foldl (fun best way => if way.1 < best.1 then way else best) first

/-- The cheapest way to make a draft a program, in at most `depth + 1` steps, and the fault its
first step mends. Runs of tokens are taken out only where no smaller change leads on. -/
def cheapest (dialect : Dialect) : Nat → Draft → Nat → Nat × Fault
  | depth, d, offset =>
    let ps := (pieces (d.text.length + 1) 0 (Cursor.ofText d.text)).toArray
    let i := failingPiece ps offset
    let near : List Change := steps dialect d ps i
    let ways : List (Nat × Fault) := match depth with
      | 0 => (near.filter (Change.completes dialect)).map fun c => (c.cost, c.fault)
      | depth + 1 => near.map fun c =>
        match c.result.failure? dialect with
        | none => (c.cost, c.fault)
        | some offset => (c.cost + (cheapest dialect depth c.result offset).1, c.fault)
    match near.find? (Change.leads dialect), ways with
    | some _, way :: ways => cheapestOf way ways
    | _, ways =>
      let run := (((runs dialect d ps i).mergeSort
        fun a b => a.cost ≤ b.cost).find? (Change.completes dialect)).map
        fun c => (c.cost, c.fault)
      cheapestOf (run.getD (recoveryCost + 100 * ps.size, ⟨startOf d ps 0, d.text.length⟩)) ways

end Repair

def faultOf (dialect : Dialect) (text : List Char) (offset : Nat) : Fault :=
  (Repair.cheapest dialect 2 ⟨text, []⟩ offset).2

end QualityGate.Syntax
