import QualityGate.Proofs.Syntax.Markup
import QualityGate.Syntax.Grammar.Expressions

/-!
Expressions are good nodes.
-/
namespace QualityGate.Syntax.Grammar
open QualityGate.Syntax.Parser

variable {d : Dialect} {g : Grammar}

abbrev Others (p : Nodes) : Prop := Ensures (fun ns => ∀ n ∈ ns, n.kind = .other) p

section

variable {p q : Nodes}

theorem others_andThen (hp : Others p) (hq : Others q) : Others (p >> q) where
  ensures h := by
    obtain ⟨front, middle, back, hfront, hback, rfl⟩ := andThen_eq_done h
    exact List.forall_mem_append.2 ⟨hp.ensures hfront, hq.ensures hback⟩

theorem others_mark (s : String) : Others (mark s) where
  ensures h := by
    obtain ⟨-, h⟩ := guarded_eq_done h
    obtain ⟨-, h⟩ := guarded_eq_done h
    obtain ⟨rfl, rfl⟩ := Reply.done.inj h
    exact List.forall_mem_singleton.2 rfl

theorem others_ascription : Others (ifTyped fun _ => opt (roled .type (ascription g))) where
  ensures {e c next ns} h := by
    have hroled {c next} (h : roled .type (ascription g) e c = .done ns next) :
        ∀ n ∈ ns, n.kind = .other := by
      rcases roled_eq_done h with ⟨-, rfl⟩ | ⟨n, ms, hn, rfl⟩
      · exact List.forall_mem_nil _
      · obtain ⟨back, -, hback⟩ := branch_eq_done hn
        obtain ⟨rfl, rfl⟩ := List.cons.inj hback
        exact List.forall_mem_singleton.2 rfl
    unfold ifTyped at h
    split at h
    · rcases orElse_eq_done h with h | ⟨n, h⟩
      · exact hroled h
      · obtain ⟨rfl, rfl⟩ := Reply.done.inj h
        exact List.forall_mem_nil _
    · obtain ⟨rfl, rfl⟩ := Reply.done.inj h
      exact List.forall_mem_nil _

theorem shows_tail [hp : Single p] (hq : Others q) :
    Ensures (Shows fun ps => ∀ n ∈ ps.tail, n.kind = .other) (p >> q) where
  ensures h := by
    obtain ⟨front, middle, back, hfront, hback, rfl⟩ := andThen_eq_done h
    obtain ⟨n, rfl⟩ := hp.ensures hfront
    intro m hm
    have hothers := hq.ensures hback
    rw [List.singleton_append, List.filter_cons] at hm
    split at hm
    · exact hothers m (List.mem_filter.1 hm).1
    · exact hothers m (List.mem_filter.1 (List.mem_of_mem_tail hm)).1

end

variable [Sound d g] [Whole g]

instance : Reads (Node.Good d) d [] (parenthesized g) := by
  have htyped := shows_tail (p := g .expression)
    (others_andThen (others_ascription (g := g)) (others_mark ")"))
  have hplain := shows_tail (p := g .expressions) (others_mark ")")
  exact reads_parenthesized (fun _ h => h) inferInstance

instance : Single (parenthesized g) := by unfold parenthesized; infer_instance

instance : Reads (Node.Good d) d [] (arrayLiteral g) := by unfold arrayLiteral; infer_instance

instance : Single (arrayLiteral g) := by unfold arrayLiteral; infer_instance

omit [Sound d g] [Whole g] in
/-- A template starts with its quote. -/
theorem ensures_quote {p : Nodes} : Ensures (fun ns => ns.head?.any fun quote => !quote.named)
    (guarded (fun _ c => c.token == .template) (fun _ => token .other false) >> p) where
  ensures h := by
    obtain ⟨front, middle, back, hfront, -, rfl⟩ := andThen_eq_done h
    obtain ⟨-, hfront⟩ := guarded_eq_done hfront
    obtain ⟨-, hfront⟩ := guarded_eq_done hfront
    obtain ⟨rfl, rfl⟩ := Reply.done.inj hfront
    rfl

instance : Reads (Node.Good d) d [] (templateLiteral g) := by
  have hgood : Reads (Node.Good d) d [] (guarded (fun _ c => c.token == .template)
    (fun _ => token .other false) >> templateBody (branch .templateSubstitution
      (holeStart >> bracketed (g .expressions) >> mark "\x7d"))) := inferInstance
  refine reads_branch hgood ensures_quote fun ns hgood hquote => ?_
  exact .of_hasShape nofun nofun rfl (Bool.and_eq_true_iff.2 ⟨Node.all_kind_ne hgood, hquote⟩) hgood

instance : Single (templateLiteral g) := by unfold templateLiteral; infer_instance

theorem regexLength_le {inClass : Bool} {cs : List Char} {n : Nat}
    (h : regexLength inClass cs = some n) : n ≤ cs.length := by
  fun_induction regexLength inClass cs generalizing n <;>
    grind [Option.map_eq_some_iff, Token.run_le]

theorem regex_eq_done {e : Env} {c next : Cursor} {ns : List Node} (h : regex e c = .done ns next) :
    ∃ cs n, c.here = '/' :: cs ∧ n ≤ cs.length ∧ leaf .other true (n + 1) e c = .done ns next := by
  unfold regex at h
  split at h
  · rename_i cs hhere
    split at h
    · rename_i n hn
      exact ⟨cs, n, hhere, regexLength_le hn, h⟩
    · contradiction
  · contradiction

instance : Reads (Node.Good d) d [] regex where
  reads _ hat hrun h := by
    obtain ⟨cs, n, hhere, hn, h⟩ := regex_eq_done h
    refine reads_leaf (fun _ _ => .leaf _ _ _) hat (Nat.succ_pos n) ?_ hrun h
    rw [hhere]
    exact Nat.succ_le_succ hn

instance : Single regex where
  ensures h := by
    obtain ⟨cs, n, -, -, h⟩ := regex_eq_done h
    exact single_leaf h

section

variable {primary tail : Nodes} [Reads (Node.Good d) d [] primary] [Reads (Node.Good d) d [] tail]

omit [Sound d g] [Whole g] in
instance :
    Reads (Node.Good d) d [] (bindable (if d.typed then .typeIdentifier else .identifier)) := by
  split <;> infer_instance

instance : Reads (Node.Good d) d [] (classExpression g tail) := by
  unfold classExpression; infer_instance

instance : Single (classExpression g tail) := by unfold classExpression; infer_instance

instance : Reads (Node.Good d) d [] (importExpression g) := by
  unfold importExpression; infer_instance

instance : Reads (Node.Good d) d [] (newExpression g primary) := by
  unfold newExpression; infer_instance

instance : Single (importExpression g) := by unfold importExpression; infer_instance

instance : Single (newExpression g primary) := by unfold newExpression; infer_instance

instance : Single (element g) where
  ensures h := by
    obtain ⟨n, hn, -⟩ := ensures_isElement.ensures h
    exact ⟨n, hn⟩

instance : Single (elementOrArrow g) := by unfold elementOrArrow; infer_instance

instance : Reads (Node.Good d) d [] (elementOrArrow g) := by unfold elementOrArrow; infer_instance

instance : Reads (Node.Good d) d [] (wordOperand g primary tail) :=
  reads_onToken fun t => by split <;> infer_instance

instance : Single (wordOperand g primary tail) :=
  ensures_onToken fun t => by split <;> infer_instance

instance : Reads (Node.Good d) d [] (operandOf g primary tail) :=
  reads_onToken fun t => by split <;> try split
                            all_goals infer_instance

instance : Single (operandOf g primary tail) :=
  ensures_onToken fun t => by split <;> try split
                              all_goals infer_instance

end

/-- Operands read good nodes as deep as `new` may stand inside `new`. -/
theorem reads_operand {tail : Nodes} [Reads (Node.Good d) d [] tail] (fuel : Nat) :
    Reads (Node.Good d) d [] (operand g tail fuel) := by
  induction fuel with
  | zero => exact inferInstanceAs (Reads _ _ _ fail)
  | succ fuel ih => exact inferInstanceAs (Reads _ _ _ (operandOf g (operand g tail fuel) tail))

omit [Whole g] in
theorem single_operand {tail : Nodes} (fuel : Nat) : Single (operand g tail fuel) := by
  cases fuel with
  | zero => exact inferInstanceAs (Single fail)
  | succ fuel => exact inferInstanceAs (Single (operandOf g (operand g tail fuel) tail))

instance : Reads (Node.Good d) d [] (instantiation g) := by unfold instantiation; infer_instance

instance {left : Node} : Reads (Node.Good d) d [left] (suffix g left) :=
  reads_onToken fun t => by split <;> infer_instance

section

variable {before : List Node} {first : Nodes} [Reads (Node.Good d) d before first]

instance : Reads (Node.Good d) d before (suffixed g first) := by unfold suffixed; infer_instance

instance [Single first] : Single (suffixed g first) := by unfold suffixed; infer_instance

instance : Reads (Node.Good d) d [] update := by unfold update; infer_instance

instance : Single update := by unfold update; infer_instance

instance : Reads (Node.Good d) d before (updated g first) := by unfold updated; infer_instance

instance [Single first] : Single (updated g first) := by unfold updated; infer_instance

end

instance {left : Node} : Reads (Node.Good d) d [left] (typeSuffix g left) := by
  unfold typeSuffix
  split
  · infer_instance
  · exact reads_guarded (reads_guarded (reads_onToken fun t => by split <;> infer_instance))

instance {left : Node} : Single (typeSuffix g left) := by
  unfold typeSuffix
  split
  · infer_instance
  · exact ensures_guarded (ensures_guarded (ensures_onToken fun t => by split <;> infer_instance))

instance : Reads (Node.Good d) d [] (typeAssertion g) := by unfold typeAssertion; infer_instance

instance : Single (typeAssertion g) := by unfold typeAssertion; infer_instance

section

variable {first : Nodes} [Reads (Node.Good d) d [] first] [Single first]

instance : Reads (Node.Good d) d [] (unary g first) :=
  reads_onToken fun t => by split <;> infer_instance

instance : Single (unary g first) := ensures_onToken fun t => by split <;> infer_instance

end

variable {rank : Token → Option Nat}

/-- Operators group good nodes, to the left and below the right operand. -/
theorem reads_binaryTail (fuel least : Nat) (left : Node) :
    Reads (Node.Good d) d [left] (binaryTail g rank fuel least left) := by
  induction fuel generalizing rank least left with
  | zero => exact inferInstanceAs (Reads _ _ _ (Parser.pure [left]))
  | succ fuel ih =>
    have hsame (n : Node) : Reads (Node.Good d) d [n] (binaryTail g rank fuel least n) := ih least n
    have hright (min : Nat) (n : Node) :
        Reads (Node.Good d) d [n] (binaryTail g level fuel min n) :=
      ih min n
    refine reads_onToken fun t => ?_
    split
    · infer_instance
    · split <;> infer_instance

omit [Whole g] in
theorem single_binaryTail (fuel least : Nat) (left : Node) :
    Single (binaryTail g rank fuel least left) := by
  induction fuel generalizing rank least left with
  | zero => exact inferInstanceAs (Single (Parser.pure [left]))
  | succ fuel ih =>
    have hsame (n : Node) : Single (binaryTail g rank fuel least n) := ih least n
    refine ensures_onToken fun t => ?_
    split
    · infer_instance
    · split <;> infer_instance

instance : Reads (Node.Good d) d [] (binary g rank) :=
  reads_onNode fun n => ⟨fun he hat hrun h => (reads_binaryTail _ 0 n).reads he hat hrun h⟩

instance : Single (binary g rank) :=
  single_onNode fun n => ⟨fun h => (single_binaryTail _ 0 n).ensures h⟩

instance : Reads (Node.Good d) d [] (conditional.rest g) := by
  unfold conditional.rest; infer_instance

instance : Reads (Node.Good d) d [] (conditional g) := by unfold conditional; infer_instance

instance : Single (conditional g) := by unfold conditional; infer_instance

instance : Reads (Node.Good d) d [] (assignment g) := by unfold assignment; infer_instance

instance : Single (assignment g) := by unfold assignment; infer_instance

instance : Reads (Node.Good d) d [] (yieldExpression g) := by unfold yieldExpression; infer_instance

instance : Single (yieldExpression g) := by unfold yieldExpression; infer_instance

instance : Reads (Node.Good d) d [] (expression g) :=
  reads_onToken fun t => by split <;> infer_instance

instance : Single (expression g) := ensures_onToken fun t => by split <;> infer_instance

instance : Reads (Node.Good d) d [] (expressions g) := by unfold expressions; infer_instance

instance : Single (expressions g) := by unfold expressions; infer_instance

end QualityGate.Syntax.Grammar
