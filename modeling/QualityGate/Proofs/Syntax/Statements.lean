import QualityGate.Proofs.Syntax.Expressions
import QualityGate.Syntax.Grammar

/-!
Classes, statements and whole programs are good nodes.
-/
namespace QualityGate.Syntax.Grammar
open QualityGate.Syntax.Parser

variable {d : Dialect} {g : Grammar} [Sound d g] [Whole g]

section

variable {primary : Nodes} [Reads (Node.Good d) d [] primary]

instance : Reads (Node.Good d) d [] (superclass g primary) := by unfold superclass; infer_instance

instance : Reads (Node.Good d) d [] (heritage.extends_ g primary) := by
  unfold heritage.extends_; infer_instance

instance : Single (heritage.extends_ g primary) := by unfold heritage.extends_; infer_instance

instance : Reads (Node.Good d) d [] (heritage.implements_ g) := by
  unfold heritage.implements_; infer_instance

instance : Single (heritage.implements_ g) := by unfold heritage.implements_; infer_instance

omit [Reads (Node.Good d) d [] primary] in
theorem reads_heritage (h : Reads (Node.Good d) d [] primary) :
    Reads (Node.Good d) d [] (heritage g primary) := by
  unfold heritage
  infer_instance

end

instance : Reads (Node.Good d) d [] fieldModifiers := by unfold fieldModifiers; infer_instance

instance : Reads (Node.Good d) d [] (field g) := by unfold field; infer_instance

instance : Reads (Node.Good d) d [] (untypedField g) := by unfold untypedField; infer_instance

instance : Fills (field g) := by unfold field; infer_instance

instance : Fills (untypedField g) := by unfold untypedField; infer_instance

instance : Fills lexicalDeclaration.letKeyword := by
  unfold lexicalDeclaration.letKeyword; infer_instance

instance : Reads (Node.Good d) d [] memberEnd := by unfold memberEnd; infer_instance

instance : Reads (Node.Good d) d [] (staticBlock g) := by unfold staticBlock; infer_instance

instance : Reads (Node.Good d) d [] (abstractMethod g) := by unfold abstractMethod; infer_instance

instance : Reads (Node.Good d) d [] (typedMember g) := by unfold typedMember; infer_instance

instance : Reads (Node.Good d) d [] (untypedMember g) := by unfold untypedMember; infer_instance

instance : Reads (Node.Good d) d [] (classBody g) := by unfold classBody; infer_instance

theorem reads_classTail (fuel : Nat) : Reads (Node.Good d) d [] (classTail g fuel) := by
  induction fuel with
  | zero => exact inferInstanceAs (Reads _ _ _ fail)
  | succ fuel ih =>
    have hheritage : Reads (Node.Good d) d []
        (heritage g fun e c => operand g (classTail g fuel) e.limit e c) :=
      reads_heritage ⟨fun he hat hrun h => (reads_operand _).reads he hat hrun h⟩
    unfold classTail
    infer_instance

instance : Reads (Node.Good d) d [] className := by unfold className; infer_instance

instance : Reads (Node.Good d) d [] (expressionStatement g) := by
  unfold expressionStatement; infer_instance

instance : Reads (Node.Good d) d [] (declarator g) := by unfold declarator; infer_instance

instance : Reads (Node.Good d) d [] lexicalDeclaration.letKeyword := by
  unfold lexicalDeclaration.letKeyword; infer_instance

instance : Reads (Node.Good d) d [] (lexicalDeclaration g) := by
  unfold lexicalDeclaration; infer_instance

instance : Reads (Node.Good d) d [] (variableDeclaration g) := by
  unfold variableDeclaration; infer_instance

instance : Reads (Node.Good d) d [] (functionDeclaration.head g) := by
  unfold functionDeclaration.head; infer_instance

instance : Reads (Node.Good d) d [] (functionDeclaration g) := by
  unfold functionDeclaration; infer_instance

instance : Reads (Node.Good d) d [] (typeAlias g) := by unfold typeAlias; infer_instance

instance : Reads (Node.Good d) d [] (interface g) := by unfold interface; infer_instance

instance : Reads (Node.Good d) d [] (enumeration.member g) := by
  unfold enumeration.member; infer_instance

instance : Reads (Node.Good d) d [] (enumeration g) := by unfold enumeration; infer_instance

instance : Reads (Node.Good d) d [] (namespaceDeclaration g) := by
  unfold namespaceDeclaration; infer_instance

instance : Reads (Node.Good d) d [] importAlias := by unfold importAlias; infer_instance

instance : Reads (Node.Good d) d [] (constOrEnum g) := by unfold constOrEnum; infer_instance

section

variable {tail : Nodes} [Reads (Node.Good d) d [] tail]

instance : Reads (Node.Good d) d [] (classDeclaration g tail) := by
  unfold classDeclaration; infer_instance

instance : Reads (Node.Good d) d [] (abstractClass g tail) := by
  unfold abstractClass; infer_instance

instance : Reads (Node.Good d) d [] (declarationOf g tail) :=
  reads_onToken fun t => by split <;> infer_instance

instance : Reads (Node.Good d) d [] (ambient g tail) := by unfold ambient; infer_instance

instance : Reads (Node.Good d) d [] (declaration g tail) :=
  reads_onToken fun t => by split <;> infer_instance

end

instance : Reads (Node.Good d) d [] exportName :=
  reads_onToken fun t => by split <;> infer_instance

instance : Single exportName := ensures_onToken fun t => by split <;> infer_instance

section

variable {kind : Kind} {name other : Nodes} [Reads (Node.Good d) d [] name]
  [Reads (Node.Good d) d [] other] [Fills name]

instance : Reads (Node.Good d) d [] (specifier.plain name other) := by
  unfold specifier.plain; infer_instance

instance : Reads (Node.Good d) d [] specifier.ends := by unfold specifier.ends; infer_instance

omit [Reads (Node.Good d) d [] name] [Reads (Node.Good d) d [] other] in
instance : Fills (specifier.plain name other) := by unfold specifier.plain; infer_instance

instance [Holds kind.isPlain] : Reads (Node.Good d) d [] (specifier kind name other) := by
  unfold specifier; infer_instance

instance : Single (specifier kind name other) := by unfold specifier; infer_instance

instance : Reads (Node.Good d) d [] (braced name) := by unfold braced; infer_instance

instance : Fills (braced name) := by unfold braced; infer_instance

end

instance : Reads (Node.Good d) d [] exportClause := by unfold exportClause; infer_instance

instance : Reads (Node.Good d) d [] fromClause := by unfold fromClause; infer_instance

instance : Reads (Node.Good d) d [] (importAttribute g) := by unfold importAttribute; infer_instance

section

variable {tail : Nodes} [Reads (Node.Good d) d [] tail]

instance : Reads (Node.Good d) d [] (exported g tail) :=
  reads_onToken fun t => by split <;> infer_instance

instance : Reads (Node.Good d) d [] (exportStatement g tail) := by
  unfold exportStatement; infer_instance

end

instance : Reads (Node.Good d) d [] namedImports := by unfold namedImports; infer_instance

instance : Single namedImports := by unfold namedImports; infer_instance

instance : Reads (Node.Good d) d [] namespaceImport := by unfold namespaceImport; infer_instance

instance : Single namespaceImport := by unfold namespaceImport; infer_instance

instance : Reads (Node.Good d) d [] importClause := by unfold importClause; infer_instance

instance : Reads (Node.Good d) d [] requireClause := by unfold requireClause; infer_instance

instance : Reads (Node.Good d) d [] importStatement.content := by
  unfold importStatement.content; infer_instance

instance : Reads (Node.Good d) d [] (importStatement g) := by unfold importStatement; infer_instance

instance : Reads (Node.Good d) d [] (condition g) := reads_inParentheses g

instance : Reads (Node.Good d) d [] (loopVariable g) := by unfold loopVariable; infer_instance

instance : Reads (Node.Good d) d [] (keyVariable g) := by unfold keyVariable; infer_instance

instance : Reads (Node.Good d) d [] (forHeader g) := by unfold forHeader; infer_instance

instance : Reads (Node.Good d) d [] (switchBody g) := by unfold switchBody; infer_instance

instance : Reads (Node.Good d) d [] (catchClause g) := by unfold catchClause; infer_instance

instance : Reads (Node.Good d) d [] (result g) := by unfold result; infer_instance

instance : Reads (Node.Good d) d [] jumpLabel := by unfold jumpLabel; infer_instance

instance {s : String} : Reads (Node.Good d) d [] (keywordStatement g s) := by
  unfold keywordStatement
  split <;> infer_instance

instance : Reads (Node.Good d) d [] (labelled g) := by unfold labelled; infer_instance

instance {tail : Nodes} [Reads (Node.Good d) d [] tail] :
    Reads (Node.Good d) d [] (statement g tail) :=
  reads_onToken fun t => by split <;> infer_instance

end QualityGate.Syntax.Grammar
