/-!
Node kinds of a parsed source file. Only the kinds that some check looks at are told apart; every
other node is `other`.
-/
namespace QualityGate.Syntax

inductive Kind
  | program
  | importStatement | importClause | importSpecifier | namespaceImport | namedImports
  | exportStatement | exportClause | exportSpecifier
  | jsxElement | jsxSelfClosingElement | jsxOpeningElement | jsxAttribute | jsxExpression
  | callExpression | newExpression | memberExpression | subscriptExpression
  | asExpression | satisfiesExpression | nonNullExpression
  | spreadElement | arguments | object | pair
  | string | templateString | templateSubstitution | number
  | functionDeclaration | functionExpression | arrowFunction | methodDefinition
  | generatorFunctionDeclaration | generatorFunction
  | formalParameters | requiredParameter | optionalParameter
  | restPattern | objectPattern | arrayPattern | pairPattern | assignmentPattern
  | objectAssignmentPattern
  | typeAliasDeclaration | interfaceDeclaration | predefinedType
  | lexicalDeclaration | variableDeclaration | variableDeclarator
  | publicFieldDefinition | classBody | classDeclaration
  | identifier | typeIdentifier | propertyIdentifier
  | shorthandPropertyIdentifier | shorthandPropertyIdentifierPattern
  | parenthesizedExpression
  | comment
  | other
  deriving DecidableEq, Repr, Inhabited

namespace Kind

def isFunctionLike : Kind → Bool
  | functionDeclaration | functionExpression | arrowFunction | methodDefinition
  | generatorFunctionDeclaration | generatorFunction => true
  | _ => false

def isElement : Kind → Bool
  | jsxElement | jsxSelfClosingElement => true
  | _ => false

/-- The node that carries a tag's name and attributes. -/
def isTag : Kind → Bool
  | jsxOpeningElement | jsxSelfClosingElement => true
  | _ => false

def isAttributeValue : Kind → Bool
  | string | jsxExpression | jsxElement | jsxSelfClosingElement => true
  | _ => false

/-- A parameter with its type. -/
def isParameter : Kind → Bool
  | requiredParameter | optionalParameter => true
  | _ => false

def isName : Kind → Bool
  | identifier | typeIdentifier | propertyIdentifier
  | shorthandPropertyIdentifier | shorthandPropertyIdentifierPattern => true
  | _ => false

end Kind

/-- What a node is for its parent. -/
inductive Role
  | name | alias | source | declaration | value
  | parameter | parameters | pattern | type | body
  | function | arguments | constructor
  | object | property | index | key
  | openTag
  deriving DecidableEq, Repr

end QualityGate.Syntax
