import QualityGate.Syntax.Grammar.Functions

/-!
Elements written in markup. Text between tags is taken as it stands: comment marks in it are text.
-/
namespace QualityGate.Syntax.Grammar
open QualityGate.Syntax.Parser

variable (g : Grammar)

def isPlain (c : Char) : Bool := c.isAlphanum || c = '_' || c = '$'

/-- Length of a name with hyphens. -/
def hyphenated? (cs : List Char) : Option Nat :=
  if (cs.dropWhile isPlain).head? = some '-' then
    some (Token.run (fun c => isPlain c || c = '-') cs)
  else none

/-- A tag or attribute name; only the markup dialect with types admits reserved words. -/
def markupName (kind : Kind) : Nodes :=
  guarded (fun e c => isWord c.token && (e.dialect.typed || isBindable c.token
      || (hyphenated? c.here).isSome || isConstant c.token))
    fun _ e c =>
      match hyphenated? c.here with
      | some n => leaf kind true n e c
      | none => token kind true e c

def namespaced : Nodes :=
  branch .other (markupName .identifier >> mark ":" >> markupName .identifier)

def elementName : Nodes :=
  namespaced <|> chain (markupName .identifier) fun left =>
    extend .memberExpression .object left
      (mark "." >> roled .property (anyWord .propertyIdentifier))

/-- A quoted attribute value, which may span lines. -/
def attributeString : Nodes := fun e c =>
  match c.here with
  | q :: cs =>
    let n := Token.run (· != q) cs
    if (q = '\x22' || q = '\x27') && n < cs.length then leaf .string true (n + 2) e c
    else .stuck (max c.start c.furthest)
  | [] => .stuck (max c.start c.furthest)

/-- `{…}` as a child, a value or a spread attribute. -/
def markupExpression : Nodes :=
  branch .jsxExpression
    (bracketed (mark "\x7b" >> opt (spread g <|> g .expressions) >> mark "\x7d"))

def tagAttribute : Nodes :=
  markupExpression g
    <|> branch .jsxAttribute ((namespaced <|> markupName .propertyIdentifier)
      >> opt (mark "=" >> (attributeString <|> markupExpression g <|> g .element)))

def tagHead : Nodes :=
  opt (roled .name elementName >> ifTyped (fun _ => opt (typeArguments g)) >> many (tagAttribute g))

/-- Length of a character reference such as `&amp;`, or of the lone `&`. -/
def referenceLength (cs : List Char) : Nat :=
  let n := Token.run (fun c => isNamePart c || c = '#') cs
  if (cs.drop n).head? = some ';' then n + 2 else 1

def isMarkupText (c : Char) : Bool := !"<>\x7b\x7d&".toList.contains c

/-- Whether a text shows anything: blanks behind a line break do not. -/
def showsText : List Char → Bool
  | [] => false
  | c :: cs =>
    if c = '\n' then go cs else true
where
  go : List Char → Bool
    | [] => false
    | c :: cs => if isSpace c then go cs else true

/-- Children up to the closing tag, which follow the last token immediately. -/
def children : Nodes := fun e c => go e.limit e c
where
  go : Nat → Nodes
    | 0 => fail
    | fuel + 1 => fun e c =>
      match c.gap with
      | '<' :: cs =>
        if closesTag cs then nothing e c else (g .element >> go fuel) e c
      | '\x7b' :: _ => (markupExpression g >> go fuel) e c
      | '&' :: cs => (rawLeaf (referenceLength cs) >> go fuel) e c
      | cs =>
        let n := Token.run isMarkupText cs
        if n = 0 then .stuck (max c.start c.furthest)
        else if showsText (cs.take n) then (rawLeaf n >> go fuel) e c
        else if (cs.drop n).isEmpty then .stuck (max c.start c.furthest)
        else go fuel e (c.takeRaw n)
  closesTag (cs : List Char) : Bool := (cs.dropWhile isSpace).head? == some '/'

def closingTag : Nodes :=
  branch .other (mark "<" >> character '/' >> opt (roled .name elementName) >> character '>')

def element : Nodes :=
  onNodes (mark "<" >> bracketed (tagHead g)) fun ns =>
    close .jsxSelfClosingElement ns (character '/' >> character '>')
    <|> onNode (close .jsxOpeningElement ns (character '>')) fun tag =>
      extend .jsxElement .openTag tag (children g >> closingTag)

end QualityGate.Syntax.Grammar
