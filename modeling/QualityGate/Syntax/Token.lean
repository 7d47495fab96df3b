import QualityGate.Syntax.Character

/-!
Tokens of the scanned language. `scan` takes the longest token at the front of a text and returns it
with its length; blanks and comments between tokens are `Trivia`.
-/
namespace QualityGate.Syntax

inductive Token
  | word (text : String)
  | punct (text : String)
  | privateName
  | number
  | string
  /-- The quote that opens a template literal. -/
  | template
  /-- A character that begins no token. -/
  | stray
  | finish
  deriving DecidableEq, Repr, Inhabited

namespace Token

/-- Punctuation, longer marks before the marks they begin with. -/
def marks : List (List Char) :=
  [">>>=", "...", "===", "!==", "**=", "<<=", ">>=", ">>>", "&&=", "||=", "??=",
   "=>", "==", "!=", "<=", ">=", "&&", "||", "??", "?.", "++", "--", "+=", "-=", "*=", "/=", "%=",
   "&=", "|=", "^=", "<<", ">>", "**",
   "\x7b", "\x7d", "(", ")", "[", "]", ";", ",", "<", ">", "+", "-", "*", "/", "%", "&", "|", "^",
   "!", "~", "?", ":", "=", "@", "."].map String.toList

def run (p : Char → Bool) (cs : List Char) : Nat := (cs.takeWhile p).length

/-- Length of the escape behind a backslash, if it is one. -/
def escapeLength : List Char → Option Nat
  | [] => none
  | 'x' :: cs => if run isHexDigit (cs.take 2) = 2 then some 3 else none
  | 'u' :: '\x7b' :: cs =>
    let n := run isHexDigit cs
    if 0 < n ∧ (cs.drop n).head? = some '\x7d' then some (n + 3) else none
  | 'u' :: cs => if run isHexDigit (cs.take 4) = 4 then some 5 else none
  | '\r' :: '\n' :: _ => some 2
  | _ :: _ => some 1

/-- Length of a string literal up to and with its closing quote; `skip` counts escaped
characters. -/
def stringLength (quote : Char) : Nat → List Char → Option Nat
  | _, [] => none
  | skip + 1, _ :: cs => (stringLength quote skip cs).map (· + 1)
  | 0, c :: cs =>
    if c = quote then some 1
    else if c = '\\' then
      match escapeLength cs with
      | some n => (stringLength quote n cs).map (· + 1)
      | none => none
    else if c = '\n' || c = '\r' then none
    else (stringLength quote 0 cs).map (· + 1)

def digitsLength (p : Char → Bool) : List Char → Nat
  | c :: '_' :: d :: cs =>
    if p c then if p d then digitsLength p (d :: cs) + 2 else 1 else 0
  | c :: cs => if p c then digitsLength p cs + 1 else 0
  | [] => 0

def bigSuffix : List Char → Nat
  | 'n' :: _ => 1
  | _ => 0

def exponentLength (cs : List Char) : Nat :=
  match cs with
  | e :: s :: r =>
    if e = 'e' || e = 'E' then
      let n := digitsLength Char.isDigit (if s = '+' || s = '-' then r else s :: r)
      if n = 0 then 0 else if s = '+' || s = '-' then n + 2 else n + 1
    else 0
  | _ => 0

/-- Length of a numeric literal at the front of `cs`, which begins with a digit or with a point and
a digit. -/
def numberLength (cs : List Char) : Nat :=
  let radix (p : Char → Bool) (r : List Char) : Nat :=
    let n := digitsLength p r
    if n = 0 then 1 else n + 2 + bigSuffix (r.drop n)
  match cs with
  | '0' :: x :: r =>
    if x = 'x' || x = 'X' then radix isHexDigit r
    else if x = 'o' || x = 'O' then radix (fun c => '0' ≤ c && c ≤ '7') r
    else if x = 'b' || x = 'B' then radix (fun c => c = '0' || c = '1') r
    else decimal cs
  | _ => decimal cs
where
  decimal (cs : List Char) : Nat :=
    let n := digitsLength Char.isDigit cs
    let r := cs.drop n
    match r with
    | '.' :: s =>
      let m := digitsLength Char.isDigit s
      n + 1 + m + exponentLength (s.drop m)
    | 'n' :: _ => n + 1
    | _ => n + exponentLength r

def nameEscape? : List Char → Option Nat
  | '\\' :: 'u' :: cs => (escapeLength ('u' :: cs)).map (· + 1)
  | _ => none

def beginsName (cs : List Char) : Bool := cs.head?.any isNameStart || (nameEscape? cs).isSome

/-- Length of the rest of a name; `skip` counts the characters of an escape. -/
def nameLength : Nat → List Char → Nat
  | _, [] => 0
  | skip + 1, _ :: cs => nameLength skip cs + 1
  | 0, c :: cs =>
    if isNamePart c then nameLength 0 cs + 1
    else match nameEscape? (c :: cs) with
      | some n => nameLength (n - 1) cs + 1
      | none => 0

/-- The longest token at the front of `cs` and its length. -/
def scan : List Char → Token × Nat
  | [] => (.finish, 0)
  | c :: cs =>
    if beginsName (c :: cs) then
      let n := nameLength 0 (c :: cs)
      (.word (String.ofList ((c :: cs).take n)), n)
    else if c.isDigit || (c = '.' && (cs.head?.map Char.isDigit).getD false) then
      (.number, numberLength (c :: cs))
    else if c = '\x22' || c = '\x27' then
      match stringLength c 0 cs with
      | some n => (.string, n + 1)
      | none => (.stray, 1)
    else if c = '\x60' then (.template, 1)
    else if c = '#' then
      if beginsName cs then (.privateName, nameLength 0 cs + 1) else (.stray, 1)
    else if c = '?' && cs.head? = some '.' && ((cs.drop 1).head?.map Char.isDigit).getD false then
      (.punct "?", 1)
    else
      match marks.find? (List.isPrefixOf · (c :: cs)) with
      | some m => (.punct (String.ofList m), m.length)
      | none => (.stray, 1)

end Token

/-- Blanks and comments before a token. -/
structure Trivia where
  size : Nat
  newline : Bool
  /-- Whether the last comment ends before the text does. -/
  closed : Bool
  rest : List Char

namespace Trivia

inductive Mode
  | code | line | block
  deriving DecidableEq

def skip : Mode → Nat → Bool → List Char → Trivia
  | .code, n, nl, '/' :: '/' :: cs => skip .line (n + 2) nl cs
  | .code, n, nl, '/' :: '*' :: cs => skip .block (n + 2) nl cs
  | .code, n, nl, c :: cs =>
    if isSpace c then skip .code (n + 1) (nl || isLineEnd c) cs else ⟨n, nl, true, c :: cs⟩
  | .line, n, nl, c :: cs =>
    if isLineEnd c then skip .code (n + 1) true cs else skip .line (n + 1) nl cs
  | .block, n, nl, '*' :: '/' :: cs => skip .code (n + 2) nl cs
  | .block, n, nl, c :: cs => skip .block (n + 1) (nl || isLineEnd c) cs
  | .block, n, nl, [] => ⟨n, nl, false, []⟩
  | _, n, nl, [] => ⟨n, nl, true, []⟩

end Trivia
end QualityGate.Syntax
