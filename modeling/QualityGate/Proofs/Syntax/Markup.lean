import QualityGate.Proofs.Syntax.Phrases
import QualityGate.Syntax.Grammar.Markup

/-!
Elements are good nodes. An attribute has a name and at most one value, and stands in a tag that has
a name; a tag starts with its bracket, and an element with its tag.
-/
namespace QualityGate.Syntax.Grammar
open QualityGate.Syntax.Parser

variable {d : Dialect} {g : Grammar} {kind : Kind} [Sound d g] [Whole g]

theorem hyphenated?_pos {cs : List Char} {n : Nat} (h : hyphenated? cs = some n) : 0 < n := by
  unfold hyphenated? at h
  split at h
  · rename_i hhyphen
    obtain rfl := Option.some.inj h
    cases cs with
    | nil => contradiction
    | cons c cs =>
      have hc : (isPlain c || c = '-') = true := by
        by_cases hplain : isPlain c = true
        · simp [hplain]
        · simpa [hplain] using hhyphen
      simp [Token.run, hc]
  · contradiction

theorem hyphenated?_le {cs : List Char} {n : Nat} (h : hyphenated? cs = some n) :
    n ≤ cs.length := by
  unfold hyphenated? at h
  split at h
  · obtain rfl := Option.some.inj h
    exact Token.run_le _ _
  · contradiction

instance [Holds kind.isPlain] : Reads (Node.Good d) d [] (markupName kind) where
  reads {_ e c _ _ _} _ hat hrun h := by
    obtain ⟨-, h⟩ := guarded_eq_done h
    split at h
    · rename_i n hn
      exact reads_leaf (fun _ _ => .leaf _ _ _) hat (hyphenated?_pos hn) (hyphenated?_le hn) hrun h
    · exact (reads_token fun _ _ => .leaf _ _ _).reads ‹_› hat hrun h

omit [Sound d g] [Whole g] in
theorem markupName_eq_done {e : Env} {c next : Cursor} {ns : List Node}
    (h : markupName kind e c = .done ns next) :
    ∃ start stop, ns = [Node.leaf kind true start stop] := by
  obtain ⟨-, h⟩ := guarded_eq_done h
  split at h
  · obtain ⟨rfl, rfl⟩ := Reply.done.inj h
    exact ⟨_, _, rfl⟩
  · obtain ⟨-, h⟩ := guarded_eq_done h
    obtain ⟨rfl, rfl⟩ := Reply.done.inj h
    exact ⟨_, _, rfl⟩

instance : Single (markupName kind) where
  ensures h := by
    obtain ⟨start, stop, hns⟩ := markupName_eq_done h
    exact ⟨_, hns⟩

instance : Reads (Node.Good d) d [] namespaced := by unfold namespaced; infer_instance

instance : Single namespaced := by unfold namespaced; infer_instance

instance : Reads (Node.Good d) d [] elementName := by unfold elementName; infer_instance

instance : Single elementName := by unfold elementName; infer_instance

instance : Reads (Node.Good d) d [] attributeString where
  reads {_ e c _ _ _} _ hat hrun h := by
    unfold attributeString at h
    split at h
    · rename_i q cs hcs
      simp only at h
      split at h
      · rename_i hok
        have hlt : Token.run (· != q) cs < cs.length :=
          of_decide_eq_true (Bool.and_eq_true_iff.1 hok).2
        refine reads_leaf (fun _ _ => .string) hat (Nat.succ_pos _) ?_ hrun h
        rw [hcs, List.length_cons]
        exact Nat.succ_le_succ hlt
      · contradiction
    · contradiction

instance : Reads (Node.Good d) d [] (markupExpression g) := by
  have hreads : Reads (Node.Good d) d [] (bracketed (mark "\x7b"
    >> opt (spread g <|> g .expressions) >> mark "\x7d")) := inferInstance
  refine reads_branch hreads inferInstance fun ns hgood (hshows : Shows (·.length ≤ 1) ns) => ?_
  refine .of_hasShape nofun nofun rfl (Bool.and_eq_true_iff.2 ⟨Node.all_kind_ne hgood, ?_⟩) hgood
  exact decide_eq_true hshows

instance : Single (markupExpression g) := by unfold markupExpression; infer_instance

structure InTag (d : Dialect) (n : Node) : Prop where
  marked : n.marked = true
  shaped : n.shaped d.typed = true

instance {s : String} : Reads (InTag d) d [] (mark s) :=
  reads_mark (fun _ _ => have h := Node.Good.leaf (d := d) _ _ _; ⟨h.marked, h.shaped⟩) s

/-- The name of an attribute is one node, no comment and no braces. -/
theorem ensures_attributeName : Ensures (fun ns => ∃ n, ns = [n] ∧ n.named = true ∧
    n.kind ≠ .comment ∧ n.kind ≠ .jsxExpression)
    (namespaced <|> markupName .propertyIdentifier) where
  ensures h := by
    rcases orElse_eq_done h with h | ⟨n, h⟩
    · obtain ⟨ms, -, rfl⟩ := branch_eq_done h
      exact ⟨_, rfl, rfl, nofun, nofun⟩
    · obtain ⟨start, stop, rfl⟩ := markupName_eq_done h
      exact ⟨_, rfl, rfl, nofun, nofun⟩

/-- The value of an attribute is one node. -/
theorem ensures_attributeValue : Ensures (fun ns => ∃ n, ns = [n] ∧ n.named = true ∧
    n.kind.isAttributeValue = true) (attributeString <|> markupExpression g <|> g .element) where
  ensures {e c _ _} h := by
    rcases orElse_eq_done h with h | ⟨n, h⟩
    · unfold attributeString at h
      split at h
      · simp only at h
        split at h
        · obtain ⟨rfl, rfl⟩ := Reply.done.inj h
          exact ⟨_, rfl, rfl, rfl⟩
        · contradiction
      · contradiction
    · rcases orElse_eq_done h with h | ⟨n, h⟩
      · obtain ⟨ms, -, rfl⟩ := branch_eq_done h
        exact ⟨_, rfl, rfl, rfl⟩
      · obtain ⟨n, rfl, hnamed, hkind⟩ := (Whole.isElement (g := g)).ensures h
        refine ⟨n, rfl, hnamed, ?_⟩
        cases hk : n.kind <;> simp_all [Kind.isElement, Kind.isAttributeValue]

theorem ensures_attributeShape : Ensures (Shows fun ps => Node.hasShape.isAttributeShape ps = true)
    ((namespaced <|> markupName .propertyIdentifier)
      >> opt (mark "=" >> (attributeString <|> markupExpression g <|> g .element))) where
  ensures h := by
    obtain ⟨front, middle, back, hfront, hback, rfl⟩ := andThen_eq_done h
    obtain ⟨name, rfl, hnamed, hcomment, hbraces⟩ := ensures_attributeName.ensures hfront
    rw [Shows, List.filter_append]
    rcases orElse_eq_done hback with hback | ⟨n, hback⟩
    · obtain ⟨equals, _, values, hequals, hvalue, rfl⟩ := andThen_eq_done hback
      obtain ⟨value, rfl, hvalueNamed, hkind⟩ := ensures_attributeValue.ensures hvalue
      have hvalueKind : value.kind ≠ .comment :=
        fun hk => by simp [hk, Kind.isAttributeValue] at hkind
      rw [List.filter_append, filter_of_not_named (not_named_mark hequals)]
      simp [hnamed, hcomment, hvalueNamed, hvalueKind, Node.hasShape.isAttributeShape,
        hbraces, hkind]
    · obtain ⟨rfl, -⟩ := Reply.done.inj hback
      simp [hnamed, hcomment, Node.hasShape.isAttributeShape, hbraces]

instance : Reads (InTag d) d [] (tagAttribute g) := by
  have hbraces : Reads (InTag d) d [] (markupExpression g) :=
    reads_imp fun n (hn : n.Good d) => ⟨hn.marked, hn.shaped⟩
  have hparts : Reads (Node.Good d) d [] ((namespaced <|> markupName .propertyIdentifier)
    >> opt (mark "=" >> (attributeString <|> markupExpression g <|> g .element))) := inferInstance
  have hattribute : Reads (InTag d) d [] (branch .jsxAttribute
      ((namespaced <|> markupName .propertyIdentifier)
        >> opt (mark "=" >> (attributeString <|> markupExpression g <|> g .element)))) := by
    refine reads_branch hparts ensures_attributeShape fun ns hgood hshows => ?_
    exact ⟨Node.marked_iff.2 ⟨nofun, rfl, fun c hc => (hgood c hc).marked⟩,
      Node.shaped_iff.2 ⟨Bool.and_eq_true_iff.2 ⟨Node.all_kind_ne hgood, hshows⟩,
        fun c hc => (hgood c hc).shaped⟩⟩
  unfold tagAttribute
  infer_instance

omit [Whole g] in
/-- Attributes stand behind a name. -/
theorem ensures_name_or_nil :
    Ensures (fun ns => (∃ n ∈ ns, n.role = some .name) ∨ ns = []) (tagHead g) where
  ensures h := by
    rcases orElse_eq_done h with h | ⟨n, h⟩
    · have hname : Gives .name (roled .name elementName
        >> ifTyped (fun _ => opt (typeArguments g)) >> many (tagAttribute g)) := inferInstance
      exact .inl (hname.ensures h)
    · obtain ⟨rfl, -⟩ := Reply.done.inj h
      exact .inr rfl

instance : Reads (InTag d) d [] (tagHead g) := by
  have hname : Reads (InTag d) d [] (roled .name elementName) :=
    reads_imp fun n (hn : n.Good d) => ⟨hn.marked, hn.shaped⟩
  have htypes : Reads (InTag d) d [] (typeArguments g) :=
    reads_imp fun n (hn : n.Good d) => ⟨hn.marked, hn.shaped⟩
  unfold tagHead
  infer_instance

theorem referenceLength_le (cs : List Char) : referenceLength cs ≤ cs.length + 1 := by
  unfold referenceLength
  simp only
  split
  · rename_i hend
    have := Token.drop_ne_nil hend
    omega
  · omega

theorem reads_children (fuel : Nat) : Reads (Node.Good d) d [] (children.go g fuel) := by
  induction fuel with
  | zero => exact inferInstanceAs (Reads _ _ _ fail)
  | succ fuel ih =>
    have hraw {text : List Char} {e : Env} {c last : Cursor} {ns : List Node} {left n : Nat}
        (he : e.dialect = d) (hat : c.At text) (hpos : 0 < n) (hle : n ≤ c.gap.length)
        (hrun : Run (Node.Good d) left c.behind [])
        (h : (rawLeaf n >> children.go g fuel) e c = .done ns last) :
        last.At text ∧ Run (Node.Good d) left last.behind ns := by
      obtain ⟨front, middle, back, hfront, hback, rfl⟩ := andThen_eq_done h
      obtain ⟨hmiddle, hrunFront⟩ := reads_raw (fun _ _ => .leaf _ _ _) hat hpos hle hrun hfront
      obtain ⟨hlast, hrunBack⟩ := ih.reads he hmiddle (.nil (Nat.le_refl _)) hback
      exact ⟨hlast, hrunFront.append hrunBack⟩
    refine ⟨fun {_ e c _ _ _} he hat hrun h => ?_⟩
    unfold children.go at h
    split at h
    · split at h
      · exact Reads.reads (p := nothing) he hat hrun h
      · exact Reads.reads (p := g .element >> children.go g fuel) he hat hrun h
    · exact Reads.reads (p := markupExpression g >> children.go g fuel) he hat hrun h
    · rename_i cs hgap
      have hpos : 0 < referenceLength cs := by
        unfold referenceLength
        simp only
        split
        · exact Nat.succ_pos _
        · exact Nat.one_pos
      refine hraw he hat hpos ?_ hrun h
      rw [hgap]
      exact referenceLength_le cs
    · simp only at h
      split at h
      · contradiction
      rename_i hne
      split at h
      · exact hraw he hat (Nat.pos_of_ne_zero hne) (Token.run_le _ _) hrun h
      · split at h
        · contradiction
        · exact ih.reads he (hat.takeRaw (Token.run_le _ _))
            (.nil (Nat.le_trans hrun.le (Nat.le_add_right _ _))) h

instance : Reads (Node.Good d) d [] (children g) :=
  ⟨fun he hat hrun h => (reads_children _).reads he hat hrun h⟩

instance : Reads (Node.Good d) d [] closingTag := by unfold closingTag; infer_instance

/-- What a tag has in front of its end: a bracket, and nothing or a name. -/
def IsTagHead (ns : List Node) : Prop :=
  ∃ bracket rest, ns = bracket :: rest ∧ bracket.named = false ∧ bracket.kind = .other ∧
    ((∃ n ∈ rest, n.role = some .name) ∨ rest = [])

omit [Whole g] in
theorem ensures_isTagHead : Ensures IsTagHead (mark "<" >> bracketed (tagHead g)) where
  ensures h := by
    obtain ⟨front, middle, back, hfront, hback, rfl⟩ := andThen_eq_done h
    obtain ⟨-, hfront⟩ := guarded_eq_done hfront
    obtain ⟨-, hfront⟩ := guarded_eq_done hfront
    obtain ⟨rfl, rfl⟩ := Reply.done.inj hfront
    exact ⟨_, back, rfl, rfl, rfl, ensures_name_or_nil.ensures hback⟩

theorem good_tag {ns ms : List Node} (hkind : kind.isTag = true) (hhead : IsTagHead ns)
    (hns : ∀ n ∈ ns, InTag d n) (hms : ∀ n ∈ ms, n.Good d) :
    (Node.branch kind (ns ++ ms)).Good d := by
  obtain ⟨bracket, rest, rfl, hbracket, hother, hname⟩ := hhead
  have hmarked : ∀ n ∈ bracket :: rest ++ ms, n.marked = true :=
    List.forall_mem_append.2 ⟨fun n hn => (hns n hn).marked, fun n hn => (hms n hn).marked⟩
  have hshaped : ∀ n ∈ bracket :: rest ++ ms, n.shaped d.typed = true :=
    List.forall_mem_append.2 ⟨fun n hn => (hns n hn).shaped, fun n hn => (hms n hn).shaped⟩
  have hstart : Node.startsWith (some bracket) kind = true := by
    cases kind <;> simp_all [Node.startsWith, Kind.isTag]
  have hattributes : (kind.isTag && (Node.branch kind (bracket :: rest ++ ms)).has .name
      || (bracket :: rest ++ ms).all fun c => c.kind != .jsxAttribute) = true := by
    rcases hname with ⟨n, hn, hrole⟩ | rfl
    · have hhas : (Node.branch kind (bracket :: rest ++ ms)).has .name = true := by
        rw [Node.has, Node.child?, List.find?_isSome]
        exact ⟨n, List.mem_append_left ms (List.mem_cons_of_mem _ hn), beq_iff_eq.2 hrole⟩
      rw [hkind, hhas]
      rfl
    · rw [List.singleton_append, List.all_cons, hother, Node.all_kind_ne hms]
      exact Bool.or_true _
  have hmarks : (Node.branch kind (bracket :: rest ++ ms)).marked = true :=
    Node.marked_iff.2 ⟨Bool.noConfusion, hstart, hmarked⟩
  refine ⟨hmarks, Node.shaped_iff.2 ⟨?_, hshaped⟩, ?_⟩
  · refine Bool.and_eq_true_iff.2 ⟨hattributes, ?_⟩
    cases kind <;> simp_all [Node.branch, Kind.isTag]
  · cases kind <;> simp_all [Node.branch, Kind.isTag]

/-- A tag that is closed is a good node. -/
theorem run_close {text : List Char} {e : Env} {c last : Cursor} {ns ms : List Node} {left : Nat}
    {p : Nodes} (hhead : IsTagHead ns) [hp : Reads (Node.Good d) d [] p]
    (he : e.dialect = d) (hat : c.At text) (hrun : Run (InTag d) left c.behind ns)
    (h : close kind ns p e c = .done ms last) (hkind : kind.isTag = true) :
    last.At text ∧ Run (Node.Good d) left last.behind ms ∧
      ∃ n, ms = [n] ∧ n.named = true ∧ n.kind = kind := by
  obtain ⟨back, hback, rfl⟩ := close_eq_done h
  obtain ⟨hlast, hrunBack⟩ := hp.reads he hat (.nil (Nat.le_refl _)) hback
  have hgood := good_tag hkind hhead hrun.good hrunBack.good
  have hall : Run (fun _ => True) left last.behind (ns ++ back) :=
    (hrun.imp fun _ _ _ => trivial).append (hrunBack.imp fun _ _ _ => trivial)
  have hne : ns ++ back ≠ [] := by
    obtain ⟨bracket, rest, rfl, -⟩ := hhead
    exact List.cons_ne_nil _ _
  exact ⟨hlast, hall.branch hne hgood, _, rfl, rfl, rfl⟩

/-- An element with its tag in front is a good node. -/
theorem good_jsxElement {tag : Node} {ns : List Node} (htag : tag.Good d)
    (hkind : tag.kind = .jsxOpeningElement) (hns : ∀ n ∈ ns, n.Good d) :
    (Node.branch .jsxElement (tag.withRole .openTag :: ns)).Good d := by
  have hrole : Node.Suits .openTag tag := Node.suits_of_isPlain tag
  have hgood := List.forall_mem_cons.2 ⟨htag.withRole hrole, hns⟩
  refine .of_hasShape nofun nofun ?_ (Bool.and_eq_true_iff.2 ⟨Node.all_kind_ne hgood, rfl⟩) hgood
  simp [Node.branch, Node.startsWith, Node.withRole, hkind]

instance : Reads (Node.Good d) d [] (element g) where
  reads he hat hrun h := by
    unfold element at h
    obtain ⟨ns, middle, hns, h⟩ := onNodes_eq_done h
    have hhead : Reads (InTag d) d [] (mark "<" >> bracketed (tagHead g)) := inferInstance
    obtain ⟨hmiddle, hrunHead⟩ := hhead.reads he hat (.nil hrun.le) hns
    have htag := ensures_isTagHead.ensures hns
    rcases orElse_eq_done h with h | ⟨far, h⟩
    · obtain ⟨hlast, hrunLast, -⟩ := run_close htag he hmiddle hrunHead h rfl
      exact ⟨hlast, hrunLast⟩
    · obtain ⟨tag, next, hopen, h⟩ := onNode_eq_done h
      obtain ⟨hnext, hrunTag, n, hn, -, hkind⟩ :=
        run_close htag he (hmiddle.withFurthest far) hrunHead hopen rfl
      obtain ⟨rfl, -⟩ := List.cons.inj hn
      obtain ⟨ms, hms, rfl⟩ := extend_eq_done h
      have hchildren : Reads (Node.Good d) d [] (children g >> closingTag) := inferInstance
      obtain ⟨hlast, hrunChildren⟩ := hchildren.reads he hnext (.nil (Nat.le_refl _)) hms
      have hgood := good_jsxElement (hrunTag.good tag List.mem_cons_self) hkind hrunChildren.good
      have hrole : Node.Suits .openTag tag := Node.suits_of_isPlain tag
      exact ⟨hlast, ((hrunTag.withRole hrole).append hrunChildren).branch
        (List.cons_ne_nil _ _) hgood⟩

omit [Whole g] in
theorem ensures_isElement :
    Ensures (fun ns => ∃ n, ns = [n] ∧ n.named = true ∧ n.kind.isElement = true)
    (element g) where
  ensures h := by
    unfold element at h
    obtain ⟨ns, middle, -, h⟩ := onNodes_eq_done h
    rcases orElse_eq_done h with h | ⟨far, h⟩
    · obtain ⟨ms, -, rfl⟩ := close_eq_done h
      exact ⟨_, rfl, rfl, rfl⟩
    · obtain ⟨tag, next, -, h⟩ := onNode_eq_done h
      obtain ⟨ms, -, rfl⟩ := extend_eq_done h
      exact ⟨_, rfl, rfl, rfl⟩

end QualityGate.Syntax.Grammar
