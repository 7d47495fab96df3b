import QualityGate.Syntax.Grammar.Classes

/-!
Statements, declarations, imports and exports.
-/
namespace QualityGate.Syntax.Grammar
open QualityGate.Syntax.Parser

variable (g : Grammar)

def expressionStatement : Nodes := branch .other (g .expressions >> semicolon)

/-- What follows a binding: its type and its initial value. -/
def declarator : Nodes :=
  branch .variableDeclarator (roled .name (bindable .identifier <|> destructuring g)
    >> ifTyped (fun _ => opt (opt (mark "!") >> roled .type (ascription g))) >> opt (initializer g))

def lexicalDeclaration : Nodes :=
  branch .lexicalDeclaration ((keyword "const" <|> letKeyword)
    >> sepBy1 "," (declarator g) >> semicolon)
where
  letKeyword : Nodes := keyword "let" >> ahead (guarded
    (fun _ c => isBindable c.token || c.token == .punct "[" || c.token == .punct "\x7b")
    fun _ => nothing)

def variableDeclaration : Nodes :=
  branch .variableDeclaration (keyword "var" >> sepBy1 "," (declarator g) >> semicolon)

/-- A function declaration, or its signature where no body follows. -/
def functionDeclaration : Nodes :=
  onNodes (asyncKeyword >> functionKeyword) fun ns =>
    close .generatorFunctionDeclaration ns (mark "*" >> head >> roled .body (block g))
    <|> close .functionDeclaration ns (head >> roled .body (block g))
    <|> close .other ns (typed fun _ => head >> semicolon)
where
  head : Nodes := roled .name (bindable .identifier) >> callSignature g

def typeAlias : Nodes :=
  branch .typeAliasDeclaration (keyword "type" >> roled .name (bindable .typeIdentifier)
    >> opt (typeParameters g) >> mark "=" >> roled .value (g .type) >> semicolon)

def interface : Nodes :=
  branch .interfaceDeclaration (keyword "interface" >> roled .name (bindable .typeIdentifier)
    >> opt (typeParameters g)
    >> opt (branch .other (keyword "extends" >> sepBy1 "," (genericType g)))
    >> roled .body (objectType g))

def enumeration : Nodes :=
  branch .other (opt (keyword "const") >> keyword "enum" >> roled .name (bindable .identifier)
    >> roled .body (branch .other (bracketed (mark "\x7b"
      >> opt (sepBy1 "," member >> opt (mark ",")) >> mark "\x7d"))))
where
  member : Nodes :=
    branch .other (roled .name (propertyName g) >> initializer g) <|> roled .name (propertyName g)

def namespaceDeclaration : Nodes :=
  branch .other ((keyword "namespace" <|> keyword "module")
    >> sameLine (fun _ => roled .name (stringLiteral <|> qualifiedName)) >>
      opt (roled .body (block g)))

def importAlias : Nodes :=
  branch .other (keyword "import" >> identifier >> mark "=" >> qualifiedName >> semicolon)

def constOrEnum : Nodes := enumeration g <|> lexicalDeclaration g

/-- Declarations proper, those with a body first read by their keyword. -/
def declarationOf (tail : Nodes) : Nodes :=
  onToken fun
    | .word "function" | .word "async" => functionDeclaration g
    | .word "class" | .punct "@" => classDeclaration g tail <|> typed fun _ => abstractClass g tail
    | .word "const" => onDialect fun d => if d.typed then constOrEnum g else lexicalDeclaration g
    | .word "let" => lexicalDeclaration g
    | .word "var" => variableDeclaration g
    | .word "abstract" => typed fun _ => abstractClass g tail
    | .word "type" => typed fun _ => typeAlias g
    | .word "interface" => typed fun _ => interface g
    | .word "enum" => typed fun _ => enumeration g
    | .word "namespace" | .word "module" => typed fun _ => namespaceDeclaration g
    | .word "import" => typed fun _ => importAlias
    | _ => fail

def ambient (tail : Nodes) : Nodes :=
  typed fun _ => branch .other (keyword "declare"
    >> (keyword "global" >> block g
      <|> keyword "module" >> mark "." >> anyWord .propertyIdentifier >> mark ":" >>
        g .type >> semicolon
      <|> declarationOf g tail))

def declaration (tail : Nodes) : Nodes :=
  onToken fun
    | .word "declare" => ambient g tail
    | _ => declarationOf g tail

/-- The name of an export: a word, `default` too, or a string. Without types `default` stays a
keyword. -/
def exportName : Nodes :=
  onToken fun
    | .string => stringLiteral
    | .word "undefined" => token .other true
    | .word "default" => onDialect fun d =>
      if d.typed then token .identifier true else token .other false
    | _ => bindable .identifier

/-- `name` or `name as alias`, with `type` in front where no name is left otherwise. -/
def specifier (kind : Kind) (name other : Nodes) : Nodes :=
  branch kind (plain >> ends) <|> branch kind ((keyword "type" <|> keyword "typeof") >> plain)
where
  plain : Nodes := roled .name name >> opt (keyword "as" >> roled .alias other)
  ends : Nodes := ahead (mark "," <|> mark "\x7d")

def braced (entry : Nodes) : Nodes :=
  bracketed (mark "\x7b" >> opt (sepBy1 "," entry >> opt (mark ",")) >> mark "\x7d")

def exportClause : Nodes :=
  branch .exportClause (braced (specifier .exportSpecifier exportName exportName))

def fromClause : Nodes := keyword "from" >> roled .source stringLiteral

def importAttribute : Nodes :=
  branch .other ((keyword "with" <|> keyword "assert") >> objectLiteral g)

/-- What stands behind the word `export`. -/
def exported (tail : Nodes) : Nodes :=
  onToken fun
    | .punct "*" =>
      (branch .other (mark "*" >> keyword "as" >> exportName) <|> mark "*")
        >> fromClause >> opt (importAttribute g) >> semicolon
    | .punct "\x7b" => exportClause >> opt (fromClause >> opt (importAttribute g)) >> semicolon
    | .punct "=" => typed fun _ => mark "=" >> g .expression >> semicolon
    | .word "default" => keyword "default"
      >> (roled .declaration (declaration g tail) <|> roled .value (g .expression) >> semicolon)
    | .word "as" => typed fun _ =>
      keyword "as" >> keyword "namespace" >> identifier >> semicolon
    | .word "import" => typed fun _ => keyword "import" >> importAlias <|>
      roled .declaration importAlias
    | .word "type" => (typed fun _ => keyword "type" >> exportClause >> opt fromClause >> semicolon)
        <|> roled .declaration (declaration g tail)
        <|> typed fun _ => keyword "type" >> mark "*" >> opt (keyword "as" >> exportName)
          >> fromClause >> semicolon
    | _ => roled .declaration (declaration g tail)

def exportStatement (tail : Nodes) : Nodes :=
  branch .exportStatement (many (decorator g) >> keyword "export" >> exported g tail)

def namedImports : Nodes :=
  branch .namedImports (braced (specifier .importSpecifier exportName (bindable .identifier)))

def namespaceImport : Nodes :=
  branch .namespaceImport (mark "*" >> keyword "as" >> bindable .identifier)

def importClause : Nodes :=
  branch .importClause (namespaceImport <|> namedImports
    <|> bindable .identifier >> opt (mark "," >> (namespaceImport <|> namedImports)))

def requireClause : Nodes :=
  branch .other (bindable .identifier >> mark "=" >> keyword "require" >> mark "("
    >> roled .source stringLiteral >> mark ")")

def importStatement : Nodes :=
  branch .importStatement (keyword "import"
    >> (typed (fun _ => (keyword "type" <|> keyword "typeof") >> content) <|> content
      <|> roled .source stringLiteral)
    >> opt (importAttribute g) >> semicolon)
where
  content : Nodes :=
    importClause >> fromClause <|> typed fun _ => requireClause

def condition : Nodes :=
  branch .parenthesizedExpression (bracketed (mark "(" >> g .expressions >> mark ")"))

def loopVariable : Nodes :=
  (bindable .identifier <|> destructuring g) >> ifTyped fun _ => opt (ascription g)

/-- A variable that starts with a value and then takes each key. -/
def keyVariable : Nodes :=
  keyword "var" >> loopVariable g >> mark "=" >> roled .value (binary g levelOutsideIn)
    >> keyword "in" >> g .expressions >> ahead (mark ")")

def forHeader : Nodes :=
  opt (keyword "await") >> bracketed (mark "("
    >> (keyVariable g
      <|> (keyword "var" >> loopVariable g >> opt (initializer g)
          <|> (keyword "const" <|> keyword "let") >> loopVariable g
          <|> (destructuring g <|> target g <|> condition g))
        >> (keyword "of" <|> keyword "in") >> g .expressions
      <|> (lexicalDeclaration g <|> variableDeclaration g
          <|> g .expressions >> mark ";" <|> mark ";")
        >> (g .expressions >> mark ";" <|> mark ";") >> opt (g .expressions))
    >> mark ")")

def switchBody : Nodes :=
  branch .other (lines (mark "\x7b" >> many (branch .other
    ((keyword "case" >> g .expressions <|> keyword "default") >> mark ":" >> statements g))
    >> mark "\x7d"))

def catchClause : Nodes :=
  branch .other (keyword "catch"
    >> opt (bracketed (mark "(" >> (bindable .identifier <|> destructuring g)
      >> ifTyped (fun _ => opt (ascription g)) >> mark ")"))
    >> roled .body (block g))

/-- What may follow `return` or `throw` on the same line. -/
def result : Nodes := guarded (fun e c => !closes e c) (fun _ => g .expressions) <|> nothing

def jumpLabel : Nodes := guarded (fun e c => !closes e c) (fun _ => bindable .other) <|> nothing

def keywordStatement (s : String) : Nodes :=
  match s with
  | "if" => branch .other (keyword "if" >> condition g >> g .statement
      >> opt (branch .other (keyword "else" >> g .statement)))
  | "for" => branch .other (keyword "for" >> forHeader g >> lines (g .statement))
  | "while" => branch .other (keyword "while" >> condition g >> g .statement)
  | "do" => branch .other (keyword "do" >> g .statement >> keyword "while" >> condition g
      >> opt (mark ";"))
  | "return" => branch .other (keyword "return" >> result g >> semicolon)
  | "throw" => branch .other (keyword "throw" >> g .expressions >> semicolon)
  | "break" => branch .other (keyword "break" >> jumpLabel >> semicolon)
  | "continue" => branch .other (keyword "continue" >> jumpLabel >> semicolon)
  | "debugger" => branch .other (keyword "debugger" >> semicolon)
  | "try" => branch .other (keyword "try" >> roled .body (block g) >> opt (catchClause g)
      >> opt (branch .other (keyword "finally" >> roled .body (block g))))
  | "switch" => branch .other (keyword "switch" >> condition g >> roled .body (switchBody g))
  | "with" => branch .other (keyword "with" >> condition g >> g .statement)
  | _ => fail

def labelled : Nodes := branch .other (bindable .other >> mark ":" >> g .statement)

def statement (tail : Nodes) : Nodes :=
  onToken fun
    | .punct "\x7b" => blockOr (block g) (expressionStatement g)
    | .punct ";" => branch .other (mark ";")
    | .punct "@" => declaration g tail <|> exportStatement g tail <|> expressionStatement g
    | .word "import" => importStatement g <|> (typed fun _ => importAlias) <|> expressionStatement g
    | .word "export" => exportStatement g tail
    | .word s =>
      keywordStatement g s <|> declaration g tail <|> labelled g <|> expressionStatement g
    | _ => expressionStatement g

end QualityGate.Syntax.Grammar
