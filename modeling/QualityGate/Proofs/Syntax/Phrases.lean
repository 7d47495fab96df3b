import QualityGate.Proofs.Syntax.Reads
import QualityGate.Syntax.Grammar.Types
import QualityGate.Syntax.Grammar.Patterns
import QualityGate.Syntax.Grammar.Functions

/-!
The parts of the grammar read good nodes if the phrases that they are made of do so: names,
parameters, types, patterns and functions.
-/
namespace QualityGate.Syntax.Grammar
open QualityGate.Syntax.Parser

/-- A grammar whose phrases are good nodes. -/
class Sound (d : Dialect) (g : Grammar) : Prop where
  reads : ∀ p, Reads (Node.Good d) d [] (g p)

/-- A grammar whose phrases, but for statements, are one node each, an element for markup. -/
class Whole (g : Grammar) : Prop where
  single : ∀ p, p ≠ .statement → Single (g p)
  isElement : Ensures (fun ns => ∃ n, ns = [n] ∧ n.named = true ∧ n.kind.isElement = true)
    (g .element)

variable {d : Dialect} {g : Grammar} {kind : Kind}

instance [h : Sound d g] (p : Phrase) : Reads (Node.Good d) d [] (g p) := h.reads p

instance [h : Whole g] : Single (g .expressions) := h.single _ nofun

instance [h : Whole g] : Single (g .expression) := h.single _ nofun

instance [h : Whole g] : Single (g .unary) := h.single _ nofun

instance [h : Whole g] : Single (g .type) := h.single _ nofun

instance [h : Whole g] : Single (g .unionType) := h.single _ nofun

instance [h : Whole g] : Single (g .pattern) := h.single _ nofun

instance [h : Whole g] : Single (g .element) := h.single _ nofun

instance [Holds kind.isPlain] : Reads (Node.Good d) d [] (bindable kind) := by
  unfold bindable; infer_instance

instance [Holds kind.isPlain] : Reads (Node.Good d) d [] (anyWord kind) := by
  unfold anyWord; infer_instance

instance : Single (bindable kind) := by unfold bindable; infer_instance

instance : Single (anyWord kind) := by unfold anyWord; infer_instance

section

variable {p : Nodes}

instance [Reads (Node.Good d) d [] p] : Reads (Node.Good d) d [] (thisOr p) :=
  reads_onToken fun t => by split <;> infer_instance

instance [Single p] : Single (thisOr p) := ensures_onToken fun t => by split <;> infer_instance

end

instance : Reads (Node.Good d) d [] identifier :=
  reads_onToken fun t => by split <;> infer_instance

instance : Single identifier := ensures_onToken fun t => by split <;> infer_instance

/-- Strings are tokens. -/
instance : Reads (Node.Good d) d [] stringLiteral :=
  reads_guarded (reads_token fun _ _ => .string)

instance : Single stringLiteral := by unfold stringLiteral; infer_instance

instance : Single numberLiteral := by unfold numberLiteral; infer_instance

instance : Single privateName := by unfold privateName; infer_instance

instance : Single memberName := by unfold memberName; infer_instance

instance : Reads (Node.Good d) d [] numberLiteral := by unfold numberLiteral; infer_instance

instance : Reads (Node.Good d) d [] privateName := by unfold privateName; infer_instance

instance : Reads (Node.Good d) d [] memberName := by unfold memberName; infer_instance

section

variable [Sound d g] [Whole g]

instance : Reads (Node.Good d) d [] (propertyName g) :=
  reads_onToken fun t => by split <;> infer_instance

instance : Single (propertyName g) := ensures_onToken fun t => by split <;> infer_instance

instance {s : String} : Reads (Node.Good d) d [] (modifier s) := by unfold modifier; infer_instance

instance : Reads (Node.Good d) d [] memberPath := by unfold memberPath; infer_instance

instance : Single memberPath := by unfold memberPath; infer_instance

theorem good_rename {old new : Kind} [Holds old.isPlain] [Holds new.isPlain] {n : Node}
    (h : n.Good d) :
    (rename old new n).Good d := by
  unfold rename
  split
  · rename_i hold
    exact h.withKind (hold ▸ Holds.eq_true)
  · exact h

theorem rename_covers (old new : Kind) (n : Node) : (rename old new n).start = n.start ∧
    (rename old new n).stop = n.stop ∧ (rename old new n).ordered = n.ordered := by
  unfold rename
  split
  · cases n
    exact ⟨rfl, rfl, rfl⟩
  · exact ⟨rfl, rfl, rfl⟩

theorem good_asTypeName {n : Node} (h : n.Good d) : (asTypeName n).Good d := by
  unfold asTypeName
  split
  · rename_i object dot property hkind hchildren
    have hplain : n.kind.isPlain = true := hkind ▸ rfl
    have hrole : n.role ≠ some .parameters := h.role_ne hplain
    have hgood := h.children hplain
    simp only [hchildren, List.forall_mem_cons] at hgood
    obtain ⟨hobject, hdot, hproperty, -⟩ := hgood
    refine .of_isPlain rfl hrole (fun hn => ?_) ?_
    · rw [(Node.marked_iff.1 h.marked).1 hn] at hchildren
      contradiction
    · simp only [List.forall_mem_cons, List.not_mem_nil, false_implies, implies_true, and_true]
      exact ⟨good_rename hobject, hdot, (good_rename hproperty).withRole nofun⟩
  · exact good_rename h

theorem asTypeName_covers (n : Node) : (asTypeName n).start = n.start ∧
    (asTypeName n).stop = n.stop ∧ (asTypeName n).ordered = n.ordered := by
  unfold asTypeName
  split
  · rename_i object dot property hkind hchildren
    refine ⟨rfl, rfl, ?_⟩
    have hobject := rename_covers .memberExpression .other object
    have hproperty := rename_covers .propertyIdentifier .typeIdentifier property
    rw [Node.ordered_eq, Node.ordered_eq, hchildren]
    simp only [Node.orderedAll, Node.ordered_withRole, asQualifier, hobject, hproperty]
    rw [← hproperty.1, ← hproperty.2.1]
    rfl
  · exact rename_covers _ _ n

instance : Reads (Node.Good d) d [] qualifiedName :=
  reads_mapped (rename_covers _ _) fun _ => good_rename

instance : Reads (Node.Good d) d [] typeName :=
  reads_mapped asTypeName_covers fun _ => good_asTypeName

instance : Single qualifiedName := by unfold qualifiedName; infer_instance

instance : Single typeName := by unfold typeName; infer_instance

/-- What stands in parentheses behind an expression is a type. -/
theorem reads_parenthesized {Q : List Node → Prop} {p : Nodes}
    (hQ : ∀ ps, Q ps → ∀ n ∈ ps.tail, n.kind = .other)
    [hp : Reads (Node.Good d) d [] p] [Fills p] (hshown : Ensures (Shows Q) p) :
    Reads (Node.Good d) d [] (branch .parenthesizedExpression p) := by
  refine reads_branch hp hshown fun ns hgood hshows => ?_
  refine .of_hasShape nofun nofun rfl ?_ hgood
  have htail : ((Node.branch .parenthesizedExpression ns).parts.tail.all fun type =>
      decide (type.kind = .other)) = true :=
    List.all_eq_true.2 fun n hn => decide_eq_true (hQ _ hshows n hn)
  exact Bool.and_eq_true_iff.2 ⟨Node.all_kind_ne hgood, htail⟩

/-- Expressions in parentheses. -/
theorem reads_inParentheses (g : Grammar) [Sound d g] [Whole g] : Reads (Node.Good d) d []
    (branch .parenthesizedExpression (bracketed (mark "(" >> g .expressions >> mark ")"))) := by
  have hsingle : Ensures (Shows (·.length ≤ 1))
    (bracketed (mark "(" >> g .expressions >> mark ")")) := inferInstance
  refine reads_parenthesized (fun ps hps => ?_) hsingle
  match ps, hps with
  | [], _ => exact List.forall_mem_nil _
  | [_], _ => exact List.forall_mem_nil _

instance : Reads (Node.Good d) d [] (spread g) := by unfold spread; infer_instance

instance : Reads (Node.Good d) d [] (arguments g) := by unfold arguments; infer_instance

instance : Reads (Node.Good d) d [] (typeArguments g) := by unfold typeArguments; infer_instance

instance : Reads (Node.Good d) d [] (ascription g) := by unfold ascription; infer_instance

instance : Reads (Node.Good d) d [] (initializer g) := by unfold initializer; infer_instance

instance : Single (spread g) := by unfold spread; infer_instance

instance : Single (arguments g) := by unfold arguments; infer_instance

instance : Single (typeArguments g) := by unfold typeArguments; infer_instance

instance : Single (ascription g) := by unfold ascription; infer_instance

instance : Reads (Node.Good d) d [] (predicate g) := by unfold predicate; infer_instance

instance : Single (predicate g) := by unfold predicate; infer_instance

instance : Reads (Node.Good d) d [] (resultType g) := by unfold resultType; infer_instance

instance : Single (resultType g) := by unfold resultType; infer_instance

instance : Reads (Node.Good d) d [] (typeParameter g) := by unfold typeParameter; infer_instance

instance : Reads (Node.Good d) d [] (typeParameters g) := by unfold typeParameters; infer_instance

instance : Single (typeParameter g) := by unfold typeParameter; infer_instance

instance : Single (typeParameters g) := by unfold typeParameters; infer_instance

instance : Reads (Node.Good d) d [] (decorator.parenthesized g) :=
  reads_inParentheses g

instance : Reads (Node.Good d) d [] (decorator.called g) := by
  unfold decorator.called; infer_instance

instance : Single (decorator.called g) := by unfold decorator.called; infer_instance

instance : Reads (Node.Good d) d [] (decorator g) := by unfold decorator; infer_instance

instance : Single (decorator g) := by unfold decorator; infer_instance

instance {s : String} : Reads (Node.Good d) d [] (parameterModifier s) := by
  unfold parameterModifier; infer_instance

instance : Fills (parameterHead g) := by unfold parameterHead; infer_instance

instance : Reads (Node.Good d) d [] (parameterHead g) := by unfold parameterHead; infer_instance

instance : Reads (Node.Good d) d [] (parameterRest g) := by unfold parameterRest; infer_instance

instance : Reads (Node.Good d) d [] (typedParameter g) := by unfold typedParameter; infer_instance

instance : Single (typedParameter g) := by unfold typedParameter; infer_instance

section

variable {p : Nodes} [Reads (Node.Good d) d [] p]

instance : Reads (Node.Good d) d [] (withDefault g p) := by unfold withDefault; infer_instance

instance [Single p] : Single (withDefault g p) := by unfold withDefault; infer_instance

end

instance : Single (parameter g) := by unfold parameter; infer_instance

def IsParameter (d : Dialect) (n : Node) : Prop :=
  n.Good d ∧ (d.typed = true → n.named = true → n.kind.isParameter = true ∧ n.has .pattern = true)

theorem isParameter_typedParameter : Ensures (fun ns => ∀ n ∈ ns,
    n.kind.isParameter = true ∧ n.has .pattern = true) (typedParameter g) := by
  have hhead : Gives .pattern (parameterHead g) := by unfold parameterHead; infer_instance
  refine ensures_onNodes hhead fun ns hns => ⟨fun h n hn => ?_⟩
  rcases orElse_eq_done h with h | ⟨far, h⟩
  · obtain ⟨hkind, hpattern⟩ := has_of_close h hns hn
    exact ⟨hkind ▸ rfl, hpattern⟩
  · obtain ⟨hkind, hpattern⟩ := has_of_close h hns hn
    exact ⟨hkind ▸ rfl, hpattern⟩

instance : Reads (Node.Good d) d [] (parameter g) := by unfold parameter; infer_instance

instance : Reads (IsParameter d) d [] (parameter g) where
  reads {_ e c next ns _} he hat hrun h := by
    have hgood : Reads (Node.Good d) d [] (parameter g) := inferInstance
    obtain ⟨hnext, hrunNext⟩ := hgood.reads he hat (.nil hrun.le) h
    refine ⟨hnext, hrunNext.imp fun n hn hgood => ⟨hgood, fun htyped _ => ?_⟩⟩
    have hchoice : parameter g e c =
        (if e.dialect.typed then typedParameter g else withDefault g (g .pattern)) e c := rfl
    rw [hchoice, he, if_pos htyped] at h
    exact isParameter_typedParameter.ensures h n hn

instance {s : String} : Reads (IsParameter d) d [] (mark s) :=
  reads_mark (fun _ _ => ⟨.leaf _ _ _, nofun⟩) s

instance : Reads (Node.Good d) d [] (formalParameters g) := by
  have hlist : Reads (IsParameter d) d [] (bracketed (mark "("
    >> opt (sepBy1 "," (parameter g) >> opt (mark ",")) >> mark ")")) := inferInstance
  refine reads_branch hlist ensures_true fun ns hgood _ => ?_
  have hshape : (!d.typed || (Node.branch .formalParameters ns).parts.all fun p =>
      p.kind.isParameter && p.has .pattern) = true := by
    cases htyped : d.typed with
    | false => rfl
    | true =>
      rw [Bool.not_true, Bool.false_or, List.all_eq_true]
      intro n hn
      obtain ⟨hmem, hnamed⟩ := List.mem_filter.1 hn
      have hparameter := (hgood n hmem).2 htyped (Bool.and_eq_true_iff.1 hnamed).1
      exact Bool.and_eq_true_iff.2 hparameter
  have hchildren : ∀ n ∈ ns, n.Good d := fun n hn => (hgood n hn).1
  exact .of_hasShape nofun nofun rfl
    (Bool.and_eq_true_iff.2 ⟨Node.all_kind_ne hchildren, hshape⟩) hchildren

instance : Single (formalParameters g) := by unfold formalParameters; infer_instance

instance : Reads (Node.Good d) d [] (roled .parameters (formalParameters g)) := by
  refine reads_roled ⟨fun h n hn _ => ?_⟩
  obtain ⟨ns, -, rfl⟩ := branch_eq_done h
  obtain rfl := Option.some.inj hn
  rfl

instance : Reads (Node.Good d) d [] (resultAscription g) := by
  unfold resultAscription; infer_instance

instance : Reads (Node.Good d) d [] (callSignature g) := by unfold callSignature; infer_instance

instance : Fills (callSignature g) := by unfold callSignature; infer_instance

section

variable {name : String}

instance : Reads (Node.Good d) d [] (token (predefinedKind name) false) := by
  unfold predefinedKind
  split
  · exact reads_token fun _ _ => .string
  · infer_instance
  · infer_instance
  · infer_instance

end

instance : Reads (Node.Good d) d [] predefinedType :=
  reads_onToken fun t => by split <;> infer_instance

instance : Single predefinedType := ensures_onToken fun t => by split <;> infer_instance

instance : Reads (Node.Good d) d [] literal :=
  reads_onToken fun t => by split <;> infer_instance

instance : Single literal := ensures_onToken fun t => by split <;> infer_instance

instance : Reads (Node.Good d) d [] literalType := by unfold literalType; infer_instance

instance : Reads (Node.Good d) d [] (importCall g) := by unfold importCall; infer_instance

instance : Single literalType := by unfold literalType; infer_instance

instance : Single (importCall g) := by unfold importCall; infer_instance

section

variable {p : Nodes}

instance [Reads (Node.Good d) d [] p] : Reads (Node.Good d) d [] (valuePath p) := by
  unfold valuePath; infer_instance

instance [Single p] : Single (valuePath p) := by unfold valuePath; infer_instance

end

instance : Reads (Node.Good d) d [] (queried g) :=
  reads_onToken fun t => by split <;> infer_instance

instance : Reads (Node.Good d) d [] (typeQuery g) := by unfold typeQuery; infer_instance

instance : Single (typeQuery g) := by unfold typeQuery; infer_instance

theorem templateRun_le (cs : List Char) : templateRun cs ≤ cs.length := by
  fun_induction templateRun cs <;> grind

instance : Reads (Node.Good d) d [] holeStart := reads_rawMark (by decide)

theorem reads_templateBody {hole : Nodes} [hhole : Reads (Node.Good d) d [] hole] (fuel : Nat) :
    Reads (Node.Good d) d [] (templateBody.go hole fuel) := by
  induction fuel with
  | zero => exact inferInstanceAs (Reads _ _ _ fail)
  | succ fuel ih =>
    refine ⟨fun {_ e c _ _ _} he hat hrun h => ?_⟩
    unfold templateBody.go at h
    split at h
    · exact Reads.reads (p := hole >> templateBody.go hole fuel) he hat hrun h
    · exact (reads_rawMark (by decide)).reads he hat hrun h
    · contradiction
    · rename_i hne _ _
      obtain ⟨front, middle, back, hfront, hback, rfl⟩ := andThen_eq_done h
      obtain ⟨hmiddle, hrunFront⟩ := reads_raw (fun _ _ => .leaf _ _ _) hat
        (Nat.pos_of_ne_zero hne) (templateRun_le _) hrun hfront
      obtain ⟨hlast, hrunBack⟩ := ih.reads he hmiddle (.nil (Nat.le_refl _)) hback
      exact ⟨hlast, hrunFront.append hrunBack⟩

instance {hole : Nodes} [Reads (Node.Good d) d [] hole] :
    Reads (Node.Good d) d [] (templateBody hole) :=
  ⟨fun he hat hrun h => (reads_templateBody _).reads he hat hrun h⟩

instance : Reads (Node.Good d) d [] (templateType g) := by unfold templateType; infer_instance

instance : Single (templateType g) := by unfold templateType; infer_instance

instance : Reads (Node.Good d) d [] accessibility := by unfold accessibility; infer_instance

instance : Reads (Node.Good d) d [] (indexSignature.named g) := by
  unfold indexSignature.named; infer_instance

instance : Reads (Node.Good d) d [] (indexSignature.overKeys g) := by
  unfold indexSignature.overKeys; infer_instance

instance : Reads (Node.Good d) d [] (indexSignature g) := by unfold indexSignature; infer_instance

instance : Reads (Node.Good d) d [] memberModifiers := by unfold memberModifiers; infer_instance

instance : Reads (Node.Good d) d [] accessorModifiers := by unfold accessorModifiers; infer_instance

instance : Reads (Node.Good d) d [] (methodSignature g) := by unfold methodSignature; infer_instance

instance : Reads (Node.Good d) d [] (propertySignature g) := by
  unfold propertySignature; infer_instance

instance : Reads (Node.Good d) d [] (typeMember g) := by unfold typeMember; infer_instance

instance : Single (templateType g) := by unfold templateType; infer_instance

instance : Single (indexSignature g) := by unfold indexSignature; infer_instance

instance : Single (methodSignature g) := by unfold methodSignature; infer_instance

instance : Single (propertySignature g) := by unfold propertySignature; infer_instance

instance : Single (typeMember g) := by unfold typeMember; infer_instance

instance : Reads (Node.Good d) d [] (objectType g) := by unfold objectType; infer_instance

instance : Reads (Node.Good d) d [] tupleMember.restName := by
  unfold tupleMember.restName; infer_instance

instance : Reads (Node.Good d) d [] (tupleMember g) := by unfold tupleMember; infer_instance

instance : Reads (Node.Good d) d [] (tupleType g) := by unfold tupleType; infer_instance

instance : Reads (Node.Good d) d [] (genericType g) := by unfold genericType; infer_instance

instance : Single (objectType g) := by unfold objectType; infer_instance

instance : Single (tupleMember g) := by unfold tupleMember; infer_instance

instance : Single (tupleType g) := by unfold tupleType; infer_instance

instance : Single (genericType g) := by unfold genericType; infer_instance

instance : Reads (Node.Good d) d [] (primaryType g) :=
  reads_onToken fun t => by split <;> infer_instance

instance : Single (primaryType g) := ensures_onToken fun t => by split <;> infer_instance

instance : Reads (Node.Good d) d [] (postfixType g) := by unfold postfixType; infer_instance

instance : Reads (Node.Good d) d [] (functionType g) := by unfold functionType; infer_instance

instance : Single (postfixType g) := by unfold postfixType; infer_instance

instance : Single (functionType g) := by unfold functionType; infer_instance

instance : Reads (Node.Good d) d [] (typeOperand g) :=
  reads_onToken fun t => by split <;> infer_instance

instance : Single (typeOperand g) := ensures_onToken fun t => by split <;> infer_instance

instance : Reads (Node.Good d) d [] unionType.divider := by unfold unionType.divider; infer_instance

instance : Reads (Node.Good d) d [] (unionType g) := by unfold unionType; infer_instance

instance : Single (unionType g) := by unfold unionType; infer_instance

instance : Reads (Node.Good d) d [] (conditionalType g) := by unfold conditionalType; infer_instance

instance : Single (conditionalType g) := by unfold conditionalType; infer_instance

instance : Reads (Node.Good d) d [] owner :=
  reads_onToken fun t => by split <;> infer_instance

instance : Single owner := ensures_onToken fun t => by split <;> infer_instance

instance : Reads (Node.Good d) d [] (target g) := by unfold target; infer_instance

instance : Single (target g) := by unfold target; infer_instance

instance : Reads (Node.Good d) d [] (restPattern g) := by unfold restPattern; infer_instance

instance : Reads (Node.Good d) d [] (arrayPattern g) := by unfold arrayPattern; infer_instance

instance : Reads (Node.Good d) d [] shorthand := by unfold shorthand; infer_instance

instance : Reads (Node.Good d) d [] (pairPattern g) := by unfold pairPattern; infer_instance

instance : Single (restPattern g) := by unfold restPattern; infer_instance

instance : Single (arrayPattern g) := by unfold arrayPattern; infer_instance

instance : Single shorthand := by unfold shorthand; infer_instance

instance : Single (pairPattern g) := by unfold pairPattern; infer_instance

instance : Reads (Node.Good d) d [] (objectPatternMember g) :=
  reads_onToken fun t => by split <;> infer_instance

instance : Reads (Node.Good d) d [] (objectPattern g) := by unfold objectPattern; infer_instance

instance : Single (objectPattern g) := by unfold objectPattern; infer_instance

instance : Reads (Node.Good d) d [] (destructuring g) :=
  reads_onToken fun t => by split <;> infer_instance

instance : Single (destructuring g) := ensures_onToken fun t => by split <;> infer_instance

instance : Reads (Node.Good d) d [] (pattern g) :=
  reads_onToken fun t => by split <;> infer_instance

instance : Single (pattern g) := ensures_onToken fun t => by split <;> infer_instance

instance : Reads (Node.Good d) d [] markupComment where
  reads {_ e c _ _ _} _ hat hrun h := by
    unfold markupComment at h
    split at h
    · rename_i hopens
      have hpos : 0 < Token.run (fun x => x = '\r' || !isLineEnd x) c.here := by
        have hstart : "<!--".toList <+: c.here ∨ "-->".toList <+: c.here := by
          rcases Bool.or_eq_true_iff.1 hopens with h | h
          · exact .inl (List.isPrefixOf_iff_prefix.1 (Bool.and_eq_true_iff.1 h).1)
          · exact .inr (List.isPrefixOf_iff_prefix.1 (Bool.and_eq_true_iff.1 h).1)
        rcases hstart with ⟨rest, hrest⟩ | ⟨rest, hrest⟩
        · rw [← hrest]
          exact Nat.succ_pos _
        · rw [← hrest]
          exact Nat.succ_pos _
      exact reads_leaf (fun _ _ => .leaf _ _ _) hat hpos (Token.run_le _ _) hrun h
    · contradiction

instance : Reads (Node.Good d) d [] (statements g) := by unfold statements; infer_instance

instance : Reads (Node.Good d) d [] (block g) := by unfold block; infer_instance

instance : Single (block g) := by unfold block; infer_instance

instance : Single functionKeyword := by unfold functionKeyword; infer_instance

instance : Reads (Node.Good d) d [] functionKeyword := by unfold functionKeyword; infer_instance

instance : Reads (Node.Good d) d [] asyncKeyword := by unfold asyncKeyword; infer_instance

instance : Reads (Node.Good d) d [] (functionExpression.rest g) := by
  unfold functionExpression.rest; infer_instance

instance : Reads (Node.Good d) d [] (functionExpression g) := by
  unfold functionExpression; infer_instance

instance : Single (functionExpression g) := by unfold functionExpression; infer_instance

section

variable {p q : Nodes}

instance [Reads (Node.Good d) d [] p] [Reads (Node.Good d) d [] q] :
    Reads (Node.Good d) d [] (blockOr p q) := by
  unfold blockOr; infer_instance

end

instance : Reads (Node.Good d) d [] (arrowBody g) :=
  reads_onToken fun t => by split <;> infer_instance

instance : Reads (Node.Good d) d [] (arrowSignature g) := by unfold arrowSignature; infer_instance

instance : Reads (Node.Good d) d [] (arrowFunction.head g) :=
  reads_onToken fun t => by split <;> infer_instance

instance : Reads (Node.Good d) d [] (arrowFunction g) := by unfold arrowFunction; infer_instance

instance : Single (arrowFunction g) := by unfold arrowFunction; infer_instance

instance : Reads (Node.Good d) d [] methodModifiers := by unfold methodModifiers; infer_instance

instance : Reads (Node.Good d) d [] (method g) := by unfold method; infer_instance

instance : Fills (method g) := by unfold method; infer_instance

instance : Reads (Node.Good d) d [] (objectMember g) :=
  reads_onToken fun t => by split <;> infer_instance

instance : Reads (Node.Good d) d [] (objectLiteral g) := by unfold objectLiteral; infer_instance

instance : Single (objectLiteral g) := by unfold objectLiteral; infer_instance


end

end QualityGate.Syntax.Grammar
