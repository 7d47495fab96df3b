import QualityGate.Syntax.Grammar.Names

/-!
Parameters, type parameters, annotations and argument lists: what stands around the body of a
function and behind the callee of a call.
-/
namespace QualityGate.Syntax.Grammar
open QualityGate.Syntax.Parser

variable (g : Grammar)

def spread : Nodes := branch .spreadElement (mark "..." >> g .expression)

def arguments : Nodes :=
  branch .arguments (bracketed (mark "(" >> commaSep (spread g <|> g .expression) >> mark ")"))

def typeArguments : Nodes :=
  branch .other (bracketed (mark "<" >> sepBy1 "," (g .type) >> opt (mark ",") >> character '>'))

def ascription : Nodes := branch .other (mark ":" >> g .type)

def initializer : Nodes := mark "=" >> roled .value (g .expression)

def predicate : Nodes :=
  branch .other (roled .name (thisOr (anyWord .identifier)) >> sameLine (fun _ => keyword "is")
    >> g .type)

/-- The result of a function type: a type, a predicate or an assertion. -/
def resultType : Nodes :=
  branch .other (keyword "asserts" >> (predicate g <|> sameLine fun _ =>
      guarded (fun _ c => isBindable c.token || c.token == .word "this") fun _ =>
        thisOr identifier))
    <|> predicate g <|> g .type

def typeParameter : Nodes :=
  branch .other (opt (modifier "const") >> roled .name (bindable .typeIdentifier)
    >> opt (branch .other ((keyword "extends" <|> mark ":") >> g .type))
    >> opt (branch .other (mark "=" >> g .type)))

def typeParameters : Nodes :=
  branch .other
    (bracketed (mark "<" >> sepBy1 "," (typeParameter g) >> opt (mark ",") >> character '>'))

def decorator : Nodes :=
  branch .other (mark "@" >> (parenthesized <|> called))
where
  parenthesized : Nodes :=
    branch .parenthesizedExpression (bracketed (mark "(" >> g .expressions >> mark ")"))
  called : Nodes :=
    onNode memberPath fun path =>
      extend .callExpression .function path
        (ifTyped (fun _ => opt (typeArguments g)) >> roled .arguments (arguments g))
      <|> Parser.pure [path]

/-- A modifier of a parameter: the word is the parameter's name unless a pattern follows. -/
def parameterModifier (s : String) : Nodes :=
  keyword s >> ahead (guarded
    (fun _ c => isWord c.token || c.token == .punct "\x7b" || c.token == .punct "[")
      fun _ => nothing)

def parameterHead : Nodes :=
  many (decorator g)
    >> many (parameterModifier "public" <|> parameterModifier "private"
      <|> parameterModifier "protected" <|> parameterModifier "override"
      <|> parameterModifier "readonly")
    >> roled .pattern (thisOr (g .pattern))

def parameterRest : Nodes := opt (roled .type (ascription g)) >> opt (initializer g)

def typedParameter : Nodes :=
  onNodes (parameterHead g) fun ns =>
    close .optionalParameter ns (mark "?" >> parameterRest g)
    <|> close .requiredParameter ns (parameterRest g)

/-- `p = e` where a default is written, else `p`. -/
def withDefault (p : Nodes) : Nodes :=
  onNode p fun n =>
    extend .assignmentPattern .name n (mark "=" >> g .expression) <|> Parser.pure [n]

def parameter : Nodes :=
  onDialect fun d => if d.typed then typedParameter g else withDefault g (g .pattern)

def formalParameters : Nodes :=
  branch .formalParameters (bracketed (mark "("
    >> opt (sepBy1 "," (parameter g) >> opt (mark ",")) >> mark ")"))

def resultAscription : Nodes := branch .other (mark ":" >> resultType g)

/-- Type parameters, parameters and result type. -/
def callSignature : Nodes :=
  ifTyped (fun _ => opt (typeParameters g)) >> roled .parameters (formalParameters g)
    >> ifTyped (fun _ => opt (resultAscription g))

end QualityGate.Syntax.Grammar
