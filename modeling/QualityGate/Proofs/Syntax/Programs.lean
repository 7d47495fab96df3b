import QualityGate.Proofs.Syntax.Statements

/-!
Every phrase of the grammar is made of good nodes, however deep phrases may stand inside each other,
and so is the tree of a text that can be read.
-/
namespace QualityGate.Syntax
namespace Grammar
open QualityGate.Syntax.Parser

variable {d : Dialect}

/-- The grammar is sound at every depth: a phrase is made of the phrases of the depth below. -/
theorem sound_phrase (d : Dialect) (depth : Nat) :
    Sound d (phrase depth) ∧ Whole (phrase depth) := by
  induction depth with
  | zero =>
    exact ⟨⟨fun p => inferInstanceAs (Reads _ _ _ fail)⟩,
      ⟨fun p _ => inferInstanceAs (Single fail), inferInstanceAs (Ensures _ fail)⟩⟩
  | succ depth ih =>
    obtain ⟨hsound, hwhole⟩ := ih
    let tail : Nodes := fun e c => classTail (phrase depth) e.limit e c
    let primary : Nodes := fun e c => operand (phrase depth) tail e.limit e c
    have htail : Reads (Node.Good d) d [] tail :=
      ⟨fun he hat hrun h => (reads_classTail _).reads he hat hrun h⟩
    have hprimary : Reads (Node.Good d) d [] primary :=
      ⟨fun he hat hrun h => (reads_operand _).reads he hat hrun h⟩
    have hsingle : Single primary := ⟨fun h => (single_operand _).ensures h⟩
    refine ⟨⟨fun p => ?_⟩, ⟨fun p hp => ?_, ensures_isElement⟩⟩
    · cases p with
      | statement => exact inferInstanceAs (Reads _ _ _ (statement (phrase depth) tail))
      | expressions => exact inferInstanceAs (Reads _ _ _ (expressions (phrase depth)))
      | expression => exact inferInstanceAs (Reads _ _ _ (expression (phrase depth)))
      | unary => exact inferInstanceAs (Reads _ _ _ (unary (phrase depth) primary))
      | type => exact inferInstanceAs (Reads _ _ _ (conditionalType (phrase depth)))
      | unionType => exact inferInstanceAs (Reads _ _ _ (unionType (phrase depth)))
      | pattern => exact inferInstanceAs (Reads _ _ _ (pattern (phrase depth)))
      | element => exact inferInstanceAs (Reads _ _ _ (element (phrase depth)))
    · cases p with
      | statement => exact absurd rfl hp
      | expressions => exact inferInstanceAs (Single (expressions (phrase depth)))
      | expression => exact inferInstanceAs (Single (expression (phrase depth)))
      | unary => exact inferInstanceAs (Single (unary (phrase depth) primary))
      | type => exact inferInstanceAs (Single (conditionalType (phrase depth)))
      | unionType => exact inferInstanceAs (Single (unionType (phrase depth)))
      | pattern => exact inferInstanceAs (Single (pattern (phrase depth)))
      | element => exact inferInstanceAs (Single (element (phrase depth)))

theorem interpreterLine_le (cs : List Char) : interpreterLine cs ≤ cs.length := by
  unfold interpreterLine
  split
  · exact Nat.succ_le_succ (Nat.succ_le_succ (Token.run_le _ _))
  · exact Nat.zero_le _

instance : Reads (Node.Good d) d [] interpreter where
  reads {_ e c _ _ _} he hat hrun h := by
    unfold interpreter at h
    split at h
    · exact Reads.reads (p := nothing) he hat hrun h
    · rename_i hne
      have hpos : 0 < interpreterLine c.gap := Nat.pos_of_ne_zero fun hzero => hne hzero
      exact reads_raw (fun _ _ => .leaf _ _ _) hat hpos (interpreterLine_le _) hrun h

instance : Reads (Node.Good d) d [] finish := by unfold finish; infer_instance

end Grammar

/-- The tree of a text that can be read. -/
theorem program_of_programOf {d : Dialect} {sealed : List Nat} {text : List Char} {root : Node}
    (h : programOf d sealed text = .ok root) :
    ∃ ns, root = Node.branch .program ns ∧ Run (Node.Good d) 0 text.length ns := by
  unfold programOf at h
  simp only at h
  split at h
  · rename_i n next hn
    obtain rfl := Except.ok.inj h
    obtain ⟨ns, hns, hroot⟩ := Parser.branch_eq_done hn
    obtain ⟨rfl, -⟩ := List.cons.inj hroot
    obtain ⟨hsound, hwhole⟩ := Grammar.sound_phrase d (4 * (text.length + 1))
    have hreads : Reads (Node.Good d) d [] (Grammar.interpreter >>
      Grammar.statements (Grammar.phrase (4 * (text.length + 1))) >> Grammar.finish) :=
      inferInstance
    obtain ⟨hnext, hrun⟩ := hreads.reads rfl (Cursor.at_ofText text) (.nil (Nat.zero_le 0)) hns
    have hle := Nat.le_trans hnext.behind_le hnext.start_le
    exact ⟨ns, rfl, ns.append_nil ▸ hrun.append (.nil hle)⟩
  · contradiction
  · contradiction

end QualityGate.Syntax
