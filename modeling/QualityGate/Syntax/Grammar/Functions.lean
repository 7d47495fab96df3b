import QualityGate.Syntax.Grammar.Signature

/-!
Functions, methods and object literals.
-/
namespace QualityGate.Syntax.Grammar
open QualityGate.Syntax.Parser

variable (g : Grammar)

/-- A comment as in markup, which goes on to the end of its line. Behind a closing brace it starts
on a line of its own, with the mark that closes. -/
def markupComment : Nodes := fun e c =>
  if "<!--".toList.isPrefixOf c.here && !c.closed
      || "-->".toList.isPrefixOf c.here && (!c.closed || c.newline) then
    leaf .other true (Token.run (fun x => x = '\r' || !isLineEnd x) c.here) e c
  else .stuck (max c.start c.furthest)

def statements : Nodes := many (markupComment <|> g .statement)

def block : Nodes := branch .other (lines (mark "\x7b" >> statements g >> mark "\x7d"))

def functionKeyword : Nodes :=
  guarded (fun _ c => c.token == .word "function") fun _ => token .functionExpression false

def asyncKeyword : Nodes := opt (keyword "async")

/-- A function in expression position; `*` makes it a generator. -/
def functionExpression : Nodes :=
  onNodes (asyncKeyword >> functionKeyword) fun ns =>
    close .generatorFunction ns (mark "*" >> rest) <|> close .functionExpression ns rest
where
  rest : Nodes :=
    opt (roled .name (bindable .identifier)) >> callSignature g >> roled .body (block g)

/-- A brace behind an arrow or in front of a statement: a block, or an object where it can be read
as one with a key in front. -/
def blockOr (block object : Nodes) : Nodes :=
  (ahead labelled >> (object <|> block)) <|> block <|> object
where
  labelled : Nodes := mark "\x7b" >> anyWord .other >> mark ":"

def arrowBody : Nodes :=
  onToken fun
    | .punct "\x7b" => blockOr (block g) (g .expression)
    | _ => g .expression

/-- The parameters in front of an arrow and their result type. -/
def arrowSignature : Nodes :=
  ifTyped (fun _ => opt (typeParameters g)) >> roled .parameters (formalParameters g)
    >> ifTyped (fun _ => guarded (fun e _ => !e.bareArrows) (fun _ => opt (resultAscription g)) <|>
      nothing)

def arrowFunction : Nodes :=
  branch .arrowFunction ((keyword "async" >> head <|> head) >> mark "=>"
    >> roled .body (arrowBody g))
where
  head : Nodes :=
    onToken fun
      | .word _ => roled .parameter (bindable .identifier) >> ahead (mark "=>")
      | _ => arrowSignature g

def methodModifiers : Nodes :=
  ifTyped (fun _ => opt (modifier "public" <|> modifier "private" <|> modifier "protected"))
    >> opt (modifier "static")
    >> ifTyped (fun _ => opt (modifier "override") >> opt (modifier "readonly"))
    >> opt (modifier "async") >> opt (modifier "get" <|> modifier "set" <|> mark "*")

def method : Nodes :=
  methodModifiers >> roled .name (propertyName g) >> ifTyped (fun _ => opt (mark "?"))
    >> callSignature g >> roled .body (block g)

def objectMember : Nodes :=
  onToken fun
    | .punct "..." => spread g
    | _ => branch .pair (roled .key (propertyName g) >> mark ":" >> roled .value (g .expression))
      <|> branch .methodDefinition (method g)
      <|> bindable .shorthandPropertyIdentifier

def objectLiteral : Nodes :=
  branch .object (bracketed (mark "\x7b" >> commaSep (objectMember g) >> mark "\x7d"))

end QualityGate.Syntax.Grammar
