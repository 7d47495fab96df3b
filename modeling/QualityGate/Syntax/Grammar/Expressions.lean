import QualityGate.Syntax.Grammar.Types
import QualityGate.Syntax.Grammar.Patterns
import QualityGate.Syntax.Grammar.Markup

/-!
Expressions. Binary operators have a level each; `as`, `satisfies` and the closing `!` bind weaker
than all of them and stronger than the conditional operator.
-/
namespace QualityGate.Syntax.Grammar
open QualityGate.Syntax.Parser

variable (g : Grammar)

def parenthesized : Nodes :=
  branch .parenthesizedExpression (bracketed (mark "("
    >> (g .expression >> ifTyped (fun _ => opt (roled .type (ascription g))) >> mark ")"
      <|> g .expressions >> mark ")")))

def arrayLiteral : Nodes :=
  branch .other (bracketed (mark "[" >> commaSep (spread g <|> g .expression) >> mark "]"))

def templateLiteral : Nodes :=
  branch .templateString (guarded (fun _ c => c.token == .template) (fun _ => token .other false)
    >> templateBody (branch .templateSubstitution
      (holeStart >> bracketed (g .expressions) >> mark "\x7d")))

/-- Length of a regular expression behind its first slash, flags included. -/
def regexLength : Bool → List Char → Option Nat
  | _, [] => none
  | _, ['\\'] => none
  | inClass, '\\' :: c :: cs =>
    if isLineEnd c then none else (regexLength inClass cs).map (· + 2)
  | inClass, c :: cs =>
    if isLineEnd c then none
    else if inClass then (regexLength (c != ']') cs).map (· + 1)
    else if c = '/' then some (1 + Token.run Char.isAlpha cs)
    else (regexLength (c = '[') cs).map (· + 1)

def regex : Nodes := fun e c =>
  match c.here with
  | '/' :: cs =>
    match regexLength false cs with
    | some n => leaf .other true (n + 1) e c
    | none => .stuck (max c.start c.furthest)
  | _ => .stuck (max c.start c.furthest)

/-- The members of a class are read elsewhere. -/
def classExpression (classTail : Nodes) : Nodes :=
  branch .other (many (decorator g) >> keyword "class"
    >> opt (guarded (fun _ c => c.token != .word "extends" && c.token != .word "implements")
      fun _ => roled .name (onDialect fun d =>
        bindable (if d.typed then .typeIdentifier else .identifier)))
    >> classTail)

def importExpression : Nodes :=
  branch .other (keyword "import" >> mark "." >> keyword "meta")
    <|> branch .callExpression (roled .function (keyword "import") >>
      roled .arguments (arguments g))

/-- `new` with a callee that holds no call itself. -/
def newExpression (primary : Nodes) : Nodes :=
  branch .other (keyword "new" >> mark "." >> keyword "target")
    <|> branch .newExpression (keyword "new" >> roled .constructor (chain primary fun left =>
          extend .memberExpression .object left
            ((mark "." <|> mark "?.") >> roled .property memberName)
          <|> extend .subscriptExpression .object left
            (bracketed (mark "[" >> roled .index (g .expressions) >> mark "]"))
          <|> typed fun _ => extend .nonNullExpression .object left
            (sameLine fun _ => mark "!"))
        >> ifTyped (fun _ => opt (typeArguments g >> ahead (mark "(")) <|> nothing)
        >> opt (roled .arguments (arguments g)))

def elementOrArrow : Nodes :=
  onDialect fun d =>
    if d.markup then element g <|> arrowFunction g else arrowFunction g

def wordOperand (primary classTail : Nodes) : Nodes :=
  onToken fun
    | .word "function" => functionExpression g
    | .word "class" => classExpression g classTail
    | .word "new" => newExpression g primary
    | .word "import" => importExpression g
    | .word "async" =>
      arrowFunction g <|> functionExpression g <|> bindable .identifier
    | t =>
      if isConstant t then token .other true
      else arrowFunction g <|> bindable .identifier

def operandOf (primary classTail : Nodes) : Nodes :=
  onToken fun
    | .word _ => wordOperand g primary classTail
    | .number => numberLiteral
    | .string => stringLiteral
    | .template => templateLiteral g
    | .privateName => privateName
    | .punct s =>
      match s with
      | "(" => arrowFunction g <|> parenthesized g
      | "[" => arrayLiteral g
      | "\x7b" => objectLiteral g
      | "<" => elementOrArrow g
      | "/" | "/=" => regex
      | "@" => classExpression g classTail
      | _ => fail
    | _ => fail

/-- Operands; the bound is on `new` directly inside `new`. -/
def operand (classTail : Nodes) : Nat → Nodes
  | 0 => fail
  | fuel + 1 => fun e c => operandOf g (operand classTail fuel) classTail e c

/-- Type arguments that are not followed by an operand: the `<` is no comparison then. -/
def instantiation : Nodes :=
  typeArguments g >> ahead (guarded (fun _ c => ends c.token) fun _ => nothing)
where
  ends : Token → Bool
    | .finish => true
    | .punct s => [")", "]", ",", ";", ":", "\x7d", ".", "?.", "=", "==", "===", "!=", "!==", "&&",
        "||", "??", "|", "&", "^"].contains s
    | _ => false

/-- Member access, calls and the like behind an operand. -/
def suffix (left : Node) : Nodes :=
  onToken fun
    | .punct "." => extend .memberExpression .object left (mark "." >> roled .property memberName)
    | .punct "?." =>
      extend .callExpression .function left (mark "?." >> ifTyped (fun _ => opt (typeArguments g))
        >> roled .arguments (arguments g))
      <|> extend .subscriptExpression .object left
        (mark "?." >> bracketed (mark "[" >> roled .index (g .expressions) >> mark "]"))
      <|> extend .memberExpression .object left (mark "?." >> roled .property memberName)
    | .punct "[" =>
      extend .subscriptExpression .object left
        (bracketed (mark "[" >> roled .index (g .expressions) >> mark "]"))
    | .punct "(" => extend .callExpression .function left (roled .arguments (arguments g))
    | .template => extend .callExpression .function left (roled .arguments (templateLiteral g))
    | .punct "<" => typed fun _ =>
      extend .callExpression .function left (typeArguments g >> roled .arguments (arguments g))
      <|> extend .other .function left (instantiation g)
    | _ => fail

def isArrow (n : Node) : Bool := n.kind = .arrowFunction

/-- An operand with its suffixes; nothing follows a function in arrow form. -/
def suffixed (first : Nodes) : Nodes :=
  chain first fun left => if isArrow left then fail else suffix g left

def update : Nodes := mark "++" <|> mark "--"

def updated (first : Nodes) : Nodes :=
  onNode (suffixed g first) fun n =>
    extend .other .object n (sameLine fun _ => update) <|> Parser.pure [n]

/-- `as T`, `satisfies T` or `!` behind an expression. -/
def typeSuffix (left : Node) : Nodes :=
  if isArrow left then fail else typed fun _ => sameLine fun _ => onToken fun
    | .word "as" =>
      extend .asExpression .object left (keyword "as" >> g .type)
    | .word "satisfies" => extend .satisfiesExpression .object left (keyword "satisfies" >> g .type)
    | .punct "!" => updated g (extend .nonNullExpression .object left (mark "!"))
    | _ => fail

def typeAssertion : Nodes :=
  branch .other (typeArguments g >> g .unary)

def unary (first : Nodes) : Nodes :=
  onToken fun
    | .punct "!" | .punct "~" | .punct "-" | .punct "+"
    | .word "typeof" | .word "void" | .word "delete" =>
      branch .other (token .other false >> g .unary)
    | .punct "++" | .punct "--" => branch .other (update >> g .unary)
    | .word "await" =>
      branch .other (keyword "await" >> chain (g .unary) (typeSuffix g))
        <|> updated g first
    | .punct "<" => onDialect fun d =>
      if d.typed && !d.markup then updated g first <|> typeAssertion g else updated g first
    | _ => updated g first

/-- The level of a binary operator. -/
def level : Token → Option Nat
  | .punct s =>
    match s with
    | "??" => some 2
    | "||" => some 3
    | "&&" => some 4
    | "|" => some 5
    | "^" => some 6
    | "&" => some 7
    | "==" | "!=" | "===" | "!==" => some 8
    | "<" | ">" | "<=" | ">=" => some 9
    | "<<" | ">>" | ">>>" => some 10
    | "+" | "-" => some 11
    | "*" | "/" | "%" => some 12
    | "**" => some 13
    | _ => none
  | .word "in" | .word "instanceof" => some 9
  | _ => none

/-- The levels where no `in` is read. -/
def levelOutsideIn (t : Token) : Option Nat := if t == .word "in" then none else level t

/-- Operators of level `min` and above behind `left`, all but `**` grouped to the left. -/
def binaryTail : (Token → Option Nat) → Nat → Nat → Node → Nodes
  | _, 0, _, left => Parser.pure [left]
  | rank, fuel + 1, min, left => onToken fun t =>
    match rank t with
    | none =>
      if min ≤ 1 then
        onNode (typeSuffix g left) (fun n => binaryTail rank fuel min n) <|> Parser.pure [left]
      else Parser.pure [left]
    | some l =>
      if l < min || isArrow left then Parser.pure [left]
      else
        let right : Nodes :=
          onNode (g .unary) fun n => binaryTail level fuel (if l = 13 then 13 else l + 1) n
        onNode (extend .other .object left (token .other false >> right))
            (fun n => binaryTail rank fuel min n)
          <|> Parser.pure [left]

def binary (rank : Token → Option Nat) : Nodes :=
  onNode (g .unary) fun n e c => binaryTail g rank e.limit 0 n e c

/-- The conditional operator. A colon after `(x)` divides its branches where it cannot annotate. -/
def conditional : Nodes :=
  onNode (binary g level) fun n =>
    if isArrow n then Parser.pure [n]
    else
      extend .other .object n (mark "?" >> (g .expression >> rest <|> bare (g .expression) >> rest))
      <|> Parser.pure [n]
where
  rest : Nodes := mark ":" >> g .expression

def isAssignment : Token → Bool
  | .punct s =>
    ["=", "+=", "-=", "*=", "/=", "%=", "^=", "&=", "|=", ">>=", ">>>=", "<<=", "**=", "&&=", "||=",
      "??="].contains s
  | _ => false

def isTarget : Kind → Bool
  | .identifier | .memberExpression | .subscriptExpression | .parenthesizedExpression
  | .nonNullExpression => true
  | _ => false

def assignment : Nodes :=
  onNode (conditional g) fun n =>
    onToken fun t =>
      if isTarget n.kind && isAssignment t then
        extend .other .object n (token .other false >> g .expression)
      else Parser.pure [n]

def yieldExpression : Nodes :=
  branch .other (keyword "yield" >> (mark "*" >> g .expression
    <|> guarded (fun e c => !closes e c) (fun _ => g .expression) <|> nothing))

def expression : Nodes :=
  onToken fun
    | .word "yield" => yieldExpression g
    | .punct "[" | .punct "\x7b" =>
      branch .other (destructuring g >> mark "=" >> g .expression) <|> assignment g
    | _ => assignment g

def expressions : Nodes := group .other (sepBy1 "," (g .expression))

end QualityGate.Syntax.Grammar
