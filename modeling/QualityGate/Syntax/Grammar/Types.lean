import QualityGate.Syntax.Grammar.Signature

/-!
The grammar of types. Names, literals, parameters and predefined types keep their kinds; all that
combines them is of kind `other`.
-/
namespace QualityGate.Syntax.Grammar
open QualityGate.Syntax.Parser

variable (g : Grammar)

def predefinedKind : String → Kind
  | "string" => .string
  | "number" => .number
  | "object" => .object
  | _ => .other

def predefined : List String :=
  ["any", "number", "boolean", "string", "symbol", "void", "unknown", "never", "object"]

def predefinedType : Nodes :=
  onToken fun
    | .word "unique" => branch .predefinedType (keyword "unique" >> keyword "symbol")
    | .word s =>
      if predefined.contains s then branch .predefinedType (token (predefinedKind s) false)
      else fail
    | _ => fail

def literal : Nodes :=
  onToken fun
    | .string => stringLiteral
    | .number => numberLiteral
    | .punct "-" | .punct "+" =>
      branch .other ((mark "-" <|> mark "+") >> numberLiteral)
    | .word s =>
      if ["true", "false", "null", "undefined"].contains s then token .other true else fail
    | _ => fail

def literalType : Nodes := branch .other literal

def importCall : Nodes :=
  branch .callExpression (roled .function (keyword "import") >> roled .arguments (arguments g))

/-- Members behind a value that is named in a type. -/
def valuePath (first : Nodes) : Nodes :=
  chain first fun left =>
    extend .memberExpression .object left
      ((mark "." <|> mark "?.") >> roled .property memberName)

def queried : Nodes :=
  onToken fun
    | .word "import" => importCall g
    | _ => thisOr identifier

def typeQuery : Nodes :=
  branch .other (keyword "typeof" >> valuePath (queried g)
    >> opt (sameLine fun _ => typeArguments g))

/-- The length of template text up to a substitution or the closing quote. -/
def templateRun : List Char → Nat
  | [] => 0
  | ['\\'] => 1
  | '\\' :: _ :: cs => templateRun cs + 2
  | '$' :: '\x7b' :: _ => 0
  | c :: cs => if c = '\x60' then 0 else templateRun cs + 1

/-- The inside of a template up to its closing quote, which follows the last token immediately. -/
def templateBody (hole : Nodes) : Nodes := fun e c => go hole e.limit e c
where
  go (hole : Nodes) : Nat → Nodes
    | 0 => fail
    | fuel + 1 => fun e c =>
      match templateRun c.gap, c.gap with
      | 0, '$' :: _ => (hole >> go hole fuel) e c
      | 0, '\x60' :: _ => rawMark "\x60" e c
      | 0, _ => .stuck (max c.start c.furthest)
      | n, _ => (rawLeaf n >> go hole fuel) e c

def holeStart : Nodes := rawMark "$\x7b"

def templateType : Nodes :=
  branch .other (guarded (fun _ c => c.token == .template) (fun _ => token .other false)
    >> templateBody (branch .other (holeStart >> bracketed (g .type) >> mark "\x7d")))

def accessibility : Nodes := modifier "public" <|> modifier "private" <|> modifier "protected"

def indexSignature : Nodes :=
  branch .other (opt ((mark "-" <|> mark "+" <|> nothing) >> modifier "readonly")
    >> bracketed (mark "[" >> (overKeys <|> named) >> mark "]")
    >> opt (mark "-" <|> mark "+") >> opt (mark "?") >> ascription g)
where
  overKeys : Nodes :=
    branch .other (roled .name (bindable .typeIdentifier) >> keyword "in" >> g .type
      >> opt (keyword "as" >> g .type))
  named : Nodes := roled .name (bindable .identifier) >> mark ":" >> g .type

def memberModifiers : Nodes :=
  opt accessibility >> opt (modifier "static") >> opt (modifier "override")
    >> opt (modifier "readonly")

def accessorModifiers : Nodes :=
  opt (modifier "async") >> opt (modifier "get" <|> modifier "set" <|> mark "*")

def methodSignature : Nodes :=
  branch .other (memberModifiers >> accessorModifiers >> roled .name (propertyName g)
    >> opt (mark "?") >> callSignature g)

def propertySignature : Nodes :=
  branch .other (memberModifiers >> roled .name (propertyName g) >> opt (mark "?")
    >> opt (roled .type (ascription g)))

def typeMember : Nodes :=
  branch .other (opt (keyword "abstract") >> keyword "new"
      >> ifTyped (fun _ => opt (typeParameters g)) >> roled .parameters (formalParameters g)
      >> opt (ascription g))
    <|> branch .other (callSignature g)
    <|> indexSignature g <|> methodSignature g <|> propertySignature g

def objectType : Nodes :=
  branch .other (lines (mark "\x7b" >> opt (mark "," <|> mark ";")
    >> many (typeMember g >> (mark "," <|> semicolon)) >> mark "\x7d"))

def tupleMember : Nodes :=
  branch .optionalParameter (roled .name (bindable .identifier) >> mark "?"
      >> roled .type (ascription g))
    <|> branch .requiredParameter (roled .name (bindable .identifier <|> restName)
      >> roled .type (ascription g))
    <|> branch .other (mark "..." >> g .type)
    <|> group .other (g .type >> opt (mark "?"))
where
  restName : Nodes := branch .restPattern (mark "..." >> bindable .identifier)

def tupleType : Nodes :=
  branch .other (bracketed (mark "[" >> commaSep (tupleMember g) >> mark "]"))

def genericType : Nodes :=
  onNode typeName fun n =>
    extend .other .name n (sameLine fun _ => typeArguments g) <|> Parser.pure [n]

def primaryType : Nodes :=
  onToken fun
    | .word "typeof" => typeQuery g
    | .word "this" | .word "const" => token .other true
    | .word "import" => onNode (valuePath (importCall g)) fun n =>
      extend .other .name n (typeArguments g) <|> Parser.pure [n]
    | .word _ => predefinedType <|> literalType <|> genericType g
    | .template => templateType g
    | .punct "(" => branch .other (bracketed (mark "(" >> g .type >> mark ")"))
    | .punct "\x7b" => objectType g
    | .punct "[" => tupleType g
    | .punct "*" => token .other true
    | .punct "?" => branch .other (mark "?" >> g .type)
    | _ => literalType

def postfixType : Nodes :=
  chain (primaryType g) fun left =>
    extend .other .object left (sameLine fun _ =>
      bracketed (mark "[" >> opt (g .type) >> mark "]"))

def functionType : Nodes :=
  branch .other (opt (keyword "abstract") >> opt (keyword "new") >> opt (typeParameters g)
    >> roled .parameters (formalParameters g) >> mark "=>" >> resultType g)

def typeOperand : Nodes :=
  onToken fun
    | .punct "(" | .punct "<" | .word "new" | .word "abstract" => functionType g <|> postfixType g
    | .word "keyof" | .word "readonly" =>
      branch .other (token .other false >> g .unionType) <|> postfixType g
    | .word "infer" =>
      branch .other (keyword "infer" >> bindable .typeIdentifier
        >> opt (keyword "extends" >> g .unionType)) <|> postfixType g
    | _ => postfixType g

def unionType : Nodes :=
  group .other (opt divider >> typeOperand g >> many (divider >> typeOperand g))
where
  divider : Nodes := mark "|" <|> mark "&"

/-- A union, or a conditional type with a union in front. -/
def conditionalType : Nodes :=
  group .other (unionType g >> opt (sameLine (fun _ => keyword "extends") >> g .unionType
    >> mark "?" >> g .type >> mark ":" >> g .type))

end QualityGate.Syntax.Grammar
