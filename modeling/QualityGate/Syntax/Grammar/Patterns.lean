import QualityGate.Syntax.Grammar.Signature

/-!
Binding and assignment patterns.
-/
namespace QualityGate.Syntax.Grammar
open QualityGate.Syntax.Parser

variable (g : Grammar)

def owner : Nodes :=
  onToken fun
    | .word "super" => token .other true
    | _ => thisOr identifier

/-- A name, or members behind it: what a value can be assigned to. -/
def target : Nodes :=
  chain owner fun left =>
    extend .memberExpression .object left (mark "." >> roled .property memberName)
    <|> extend .subscriptExpression .object left
      (bracketed (mark "[" >> roled .index (g .expressions) >> mark "]"))
    <|> typed fun _ => extend .nonNullExpression .object left (mark "!")

def restPattern : Nodes := branch .restPattern (mark "..." >> g .pattern)

def arrayPattern : Nodes :=
  branch .arrayPattern
    (bracketed (mark "[" >> commaSep (restPattern g <|> withDefault g (g .pattern)) >> mark "]"))

def shorthand : Nodes := bindable .shorthandPropertyIdentifierPattern

def pairPattern : Nodes :=
  branch .pairPattern (roled .key (propertyName g) >> mark ":"
    >> roled .value (withDefault g (g .pattern)))

def objectPatternMember : Nodes :=
  onToken fun
    | .punct "..." => restPattern g
    | _ => pairPattern g
      <|> branch .objectAssignmentPattern (shorthand >> mark "=" >> g .expression)
      <|> shorthand

def objectPattern : Nodes :=
  branch .objectPattern
    (bracketed (mark "\x7b" >> commaSep (objectPatternMember g) >> mark "\x7d"))

def destructuring : Nodes :=
  onToken fun
    | .punct "\x7b" => objectPattern g
    | .punct "[" => arrayPattern g
    | _ => fail

def pattern : Nodes :=
  onToken fun
    | .punct "..." => restPattern g
    | .word _ => target g
    | _ => destructuring g

end QualityGate.Syntax.Grammar
