import QualityGate.Syntax.Grammar.Expressions

/-!
Class bodies and what stands in front of them.
-/
namespace QualityGate.Syntax.Grammar
open QualityGate.Syntax.Parser

variable (g : Grammar)

/-- What a class extends: an operand with suffixes, type arguments apart. -/
def superclass (primary : Nodes) : Nodes :=
  roled .value (suffixed g primary) >> ifTyped fun _ => opt (typeArguments g)

def heritage (primary : Nodes) : Nodes :=
  onDialect fun d =>
    if d.typed then
      branch .other (extends_ >> opt implements_ <|> implements_)
    else branch .other (keyword "extends" >> g .unary)
where
  extends_ : Nodes := branch .other (keyword "extends" >> sepBy1 "," (superclass g primary))
  implements_ : Nodes := branch .other (keyword "implements" >> sepBy1 "," (g .type))

def fieldModifiers : Nodes :=
  opt (modifier "declare" >> opt accessibility <|> accessibility >> opt (modifier "declare"))
    >> (modifier "accessor"
      <|> modifier "abstract" >> opt (modifier "readonly")
      <|> opt (modifier "static") >> opt (modifier "override") >> opt (modifier "readonly")
        >> opt (modifier "abstract"))

def field : Nodes :=
  fieldModifiers >> roled (.name) (propertyName g)
    >> ifTyped (fun _ => opt (mark "?" <|> mark "!") >> opt (roled .type (ascription g)))
    >> opt (initializer g)

/-- Without types the key of a field is its property, not its name. -/
def untypedField : Nodes :=
  opt (modifier "static") >> roled .property (propertyName g) >> opt (initializer g)

def memberEnd : Nodes := mark "," <|> semicolon

def staticBlock : Nodes := branch .other (keyword "static" >> roled .body (block g))

def abstractMethod : Nodes :=
  branch .other (opt accessibility >> modifier "abstract" >> opt (modifier "override")
    >> opt (modifier "get" <|> modifier "set" <|> mark "*") >> roled .name (propertyName g)
    >> opt (mark "?") >> callSignature g)

/-- Decorators of a method stand beside it, those of a field inside it. -/
def typedMember : Nodes :=
  many (decorator g) >> branch .methodDefinition (method g) >> opt (mark ";")
    <|> staticBlock g
    <|> (abstractMethod g <|> opt (modifier "static") >> indexSignature g
        <|> many (decorator g) >> methodSignature g
        <|> branch .publicFieldDefinition (many (decorator g) >> field g)) >> memberEnd

def untypedMember : Nodes :=
  branch .methodDefinition (many (decorator g) >> method g) >> opt (mark ";")
    <|> staticBlock g
    <|> branch .publicFieldDefinition (many (decorator g) >> untypedField g) >> semicolon

def classBody : Nodes :=
  branch .classBody (lines (mark "\x7b" >> many (mark ";" <|> onDialect fun d =>
    if d.typed then typedMember g else untypedMember g) >> mark "\x7d"))

/-- Everything behind the name of a class; the heritage may hold a class itself. -/
def classTail : Nat → Nodes
  | 0 => fail
  | fuel + 1 =>
    ifTyped (fun _ => opt (typeParameters g))
      >> opt (heritage g (fun e c => operand g (classTail fuel) e.limit e c))
      >> roled .body (classBody g)

def className : Nodes :=
  roled .name (onDialect fun d => bindable (if d.typed then .typeIdentifier else .identifier))

def classDeclaration (tail : Nodes) : Nodes :=
  branch .classDeclaration (many (decorator g) >> keyword "class" >> className >> tail)

def abstractClass (tail : Nodes) : Nodes :=
  branch .other (many (decorator g) >> keyword "abstract" >> keyword "class" >> className >> tail)

end QualityGate.Syntax.Grammar
