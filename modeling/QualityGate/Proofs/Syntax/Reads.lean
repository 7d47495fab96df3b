import QualityGate.Proofs.Syntax.Scanner
import QualityGate.Proofs.Syntax.Shape

/-!
What parsers yield. A parser reads good nodes side by side if the parsers that it is made of do so.
The rules for this are instances, so that a part of the grammar needs a proof of its own only where
its kind asks for certain children.
-/
namespace QualityGate.Syntax

/-- Nodes between two offsets, each of them good. -/
structure Run (good : Node → Prop) (left right : Nat) (ns : List Node) : Prop where
  ordered : Node.orderedAll left right ns = true
  good : ∀ n ∈ ns, good n

namespace Run

variable {good : Node → Prop} {left middle right : Nat} {ms ns : List Node}

theorem nil (h : left ≤ right) : Run good left right [] :=
  ⟨Node.orderedAll_nil.2 h, List.forall_mem_nil _⟩

theorem append (h : Run good left middle ms) (k : Run good middle right ns) :
    Run good left right (ms ++ ns) :=
  ⟨Node.orderedAll_append h.ordered k.ordered, List.forall_mem_append.2 ⟨h.good, k.good⟩⟩

theorem imp {better : Node → Prop} (hgood : ∀ n ∈ ns, good n → better n)
    (h : Run good left right ns) :
    Run better left right ns :=
  ⟨h.ordered, fun n hn => hgood n hn (h.good n hn)⟩

theorem le (h : Run good left right ns) : left ≤ right := Node.le_of_orderedAll h.ordered

end Run

/-- A parser goes on behind the nodes `before`. It yields them, or nodes over them, and good nodes
behind them. -/
class Reads (good : Node → Prop) (d : Dialect) (before : List Node) (p : Nodes) : Prop where
  reads : ∀ {text : List Char} {e : Env} {c next : Cursor} {ns : List Node} {left : Nat},
    e.dialect = d → c.At text → Run good left c.behind before → p e c = .done ns next →
      next.At text ∧ Run good left next.behind ns

/-- What a parser yields has a property. -/
class Ensures (Q : List Node → Prop) (p : Nodes) : Prop where
  ensures : ∀ {e : Env} {c next : Cursor} {ns : List Node}, p e c = .done ns next → Q ns

abbrev Fills (p : Nodes) : Prop := Ensures (· ≠ []) p

abbrev Gives (role : Role) (p : Nodes) : Prop := Ensures (fun ns => ∃ n ∈ ns, n.role = some role) p

abbrev Single (p : Nodes) : Prop := Ensures (fun ns => ∃ n, ns = [n]) p

/-- Kinds that ask nothing of what stands below their nodes. -/
@[reducible] def Kind.isPlain : Kind → Bool
  | .jsxElement | .jsxOpeningElement | .jsxSelfClosingElement | .jsxAttribute | .jsxExpression
  | .string | .templateString | .parenthesizedExpression | .formalParameters => false
  | _ => true

/-- Roles that ask nothing of the nodes that have them. -/
@[reducible] def Role.isPlain : Role → Bool
  | .parameters => false
  | _ => true

/-- A fact that is found by computing. -/
class Holds (b : Bool) : Prop where
  eq_true : b = true

instance : Holds true := ⟨rfl⟩

namespace Node

/-- What is below a node is as its kind asks, and the node may stand anywhere. -/
structure Good (d : Dialect) (n : Node) : Prop where
  marked : n.marked = true
  shaped : n.shaped d.typed = true
  kind_ne : n.kind ≠ .jsxAttribute

variable {d : Dialect} {n : Node} {ns : List Node} {kind : Kind} {left right : Nat}

theorem Good.of_hasShape (hkind : n.kind ≠ .jsxAttribute)
    (hnamed : n.named = false → n.children = [])
    (hstart : startsWith n.children.head? n.kind = true) (hshape : n.hasShape d.typed = true)
    (h : ∀ c ∈ n.children, c.Good d) : n.Good d :=
  ⟨marked_iff.2 ⟨hnamed, hstart, fun c hc => (h c hc).marked⟩,
    shaped_iff.2 ⟨hshape, fun c hc => (h c hc).shaped⟩, hkind⟩

theorem all_kind_ne (h : ∀ n ∈ ns, n.Good d) : (ns.all fun c => c.kind != .jsxAttribute) = true :=
  List.all_eq_true.2 fun c hc => by simpa using (h c hc).kind_ne

theorem Good.of_isPlain (hkind : n.kind.isPlain = true) (hrole : n.role ≠ some .parameters)
    (hnamed : n.named = false → n.children = []) (h : ∀ c ∈ n.children, c.Good d) : n.Good d := by
  have hshape : n.hasShape d.typed = true := by
    rw [hasShape, all_kind_ne h, Bool.or_true, bne_iff_ne.2 hrole, Bool.true_or, Bool.true_and,
      Bool.true_and]
    cases hk : n.kind <;> simp_all [Kind.isPlain]
  refine .of_hasShape (fun hk => ?_) hnamed ?_ hshape h
  · rw [hk] at hkind
    contradiction
  · cases hk : n.kind <;> simp_all [Kind.isPlain, startsWith]

theorem Good.leaf [Holds kind.isPlain] (named : Bool) (start stop : Nat) :
    (leaf kind named start stop).Good d := by
  have hkind : kind.isPlain = true := Holds.eq_true
  exact .of_isPlain hkind nofun (fun _ => rfl) (List.forall_mem_nil _)

theorem Good.string {named : Bool} {start stop : Nat} :
    (Node.leaf .string named start stop).Good d :=
  ⟨marked_iff.2 ⟨fun _ => rfl, rfl, List.forall_mem_nil _⟩,
    shaped_iff.2 ⟨rfl, List.forall_mem_nil _⟩, nofun⟩

theorem Good.branch (hkind : kind.isPlain = true) (h : ∀ c ∈ ns, c.Good d) :
    (branch kind ns).Good d :=
  .of_isPlain hkind nofun nofun h

theorem Good.role_ne (hkind : n.kind.isPlain = true) (h : n.Good d) :
    n.role ≠ some .parameters := by
  intro hrole
  have hparts := (Bool.and_eq_true_iff.1 (shaped_iff.1 h.shaped).1).1
  have hlist := (Bool.and_eq_true_iff.1 hparts).1
  rw [hrole] at hlist
  rw [show n.kind = .formalParameters from by simpa using hlist] at hkind
  contradiction

theorem Good.children (hkind : n.kind.isPlain = true) (h : n.Good d) :
    ∀ c ∈ n.children, c.Good d := by
  intro c hc
  have htag : n.kind.isTag = false := by cases hk : n.kind <;> simp_all [Kind.isPlain, Kind.isTag]
  have hparts := (Bool.and_eq_true_iff.1 (shaped_iff.1 h.shaped).1).1
  have hshape := (Bool.and_eq_true_iff.1 hparts).2
  rw [htag, Bool.false_and, Bool.false_or, List.all_eq_true] at hshape
  exact ⟨(marked_iff.1 h.marked).2.2 c hc,
    (shaped_iff.1 h.shaped).2 c hc, by simpa using hshape c hc⟩

theorem Good.withKind [Holds kind.isPlain] (hkind : n.kind.isPlain = true) (h : n.Good d) :
    (n.withKind kind).Good d := by
  have hnew : kind.isPlain = true := Holds.eq_true
  have hchildren := h.children hkind
  have hrole : n.role ≠ some .parameters := h.role_ne hkind
  exact .of_isPlain hnew hrole (marked_iff.1 h.marked).1 hchildren

/-- A role suits a node. -/
def Suits (role : Role) (n : Node) : Prop := role = .parameters → n.kind = .formalParameters

theorem suits_of_isPlain {role : Role} [h : Holds role.isPlain] (n : Node) : Suits role n := by
  rintro rfl
  exact absurd h.eq_true Bool.false_ne_true

theorem hasShape_withRole {role : Role} {typed : Bool} (hrole : Suits role n)
    (hkind : n.kind ≠ .jsxAttribute) (h : n.hasShape typed = true) :
    (n.withRole role).hasShape typed = true := by
  obtain ⟨hparts, hown⟩ := Bool.and_eq_true_iff.1 h
  have hlist : ((some role != some .parameters) || n.kind = .formalParameters) = true := by
    by_cases hparameters : role = .parameters
    · simp [hrole hparameters]
    · simp [hparameters]
  refine Bool.and_eq_true_iff.2
    ⟨Bool.and_eq_true_iff.2 ⟨hlist, (Bool.and_eq_true_iff.1 hparts).2⟩, ?_⟩
  obtain ⟨kind, _, _, _, _, _⟩ := n
  cases kind <;> first | exact hown | contradiction

theorem Good.withRole {role : Role} (hrole : Suits role n) (h : n.Good d) :
    (n.withRole role).Good d := by
  have hmarked := marked_iff.1 h.marked
  have hshaped := shaped_iff.1 h.shaped
  have hshape := hasShape_withRole hrole h.kind_ne hshaped.1
  exact ⟨marked_iff.2 hmarked, shaped_iff.2 ⟨hshape, hshaped.2⟩, h.kind_ne⟩

theorem ordered_withRole (role : Role) (n : Node) : (n.withRole role).ordered = n.ordered := by
  cases n
  rfl

theorem orderedAll_withRole (role : Role) :
    orderedAll left right (n.withRole role :: ns) = orderedAll left right (n :: ns) := by
  rw [orderedAll, orderedAll, ordered_withRole]
  rfl

end Node

namespace Run

variable {d : Dialect} {n : Node} {ns : List Node} {left right : Nat}

theorem branch {good better : Node → Prop} {kind : Kind} (hne : ns ≠ [])
    (h : Run good left right ns) (hbetter : better (Node.branch kind ns)) :
    Run better left right [Node.branch kind ns] :=
  ⟨Node.orderedAll_branch kind hne h.ordered, List.forall_mem_singleton.2 hbetter⟩

theorem withRole {role : Role} (hrole : Node.Suits role n)
    (h : Run (Node.Good d) left right (n :: ns)) :
    Run (Node.Good d) left right (n.withRole role :: ns) := by
  obtain ⟨hn, hns⟩ := List.forall_mem_cons.1 h.good
  refine ⟨?_, List.forall_mem_cons.2 ⟨hn.withRole hrole, hns⟩⟩
  rw [Node.orderedAll_withRole]
  exact h.ordered

end Run

namespace Parser

variable {good : Node → Prop} {d : Dialect} {before : List Node} {p : Nodes} {e : Env}
  {c last : Cursor} {ns : List Node} {P : Node → Prop}

theorem andThen_eq_done {q : Unit → Nodes} (h : HAndThen.hAndThen p q e c = .done ns last) :
    ∃ front middle back, p e c = .done front middle ∧ q () e middle = .done back last ∧
      ns = front ++ back := by
  change Parser.andThen p q e c = _ at h
  unfold Parser.andThen at h
  split at h
  · contradiction
  · rename_i front middle hp
    split at h
    · contradiction
    · rename_i back next hq
      obtain ⟨rfl, rfl⟩ := Reply.done.inj h
      exact ⟨front, middle, back, hp, hq, rfl⟩

theorem orElse_eq_done {q : Unit → Nodes} (h : HOrElse.hOrElse p q e c = .done ns last) :
    p e c = .done ns last ∨ ∃ n, q () e { c with furthest := n } = .done ns last := by
  change Parser.orElse p q e c = _ at h
  unfold Parser.orElse at h
  split at h
  · rename_i hp
    exact .inl (hp.trans h)
  · exact .inr ⟨_, h⟩

theorem branch_eq_done {kind : Kind} (h : branch kind p e c = .done ns last) :
    ∃ ms, p e c = .done ms last ∧ ns = [Node.branch kind ms] := by
  unfold branch at h
  split at h
  · rename_i ms next hp
    obtain ⟨rfl, rfl⟩ := Reply.done.inj h
    exact ⟨ms, hp, rfl⟩
  · contradiction

theorem guarded_eq_done {ok : Env → Cursor → Bool} {p : Unit → Nodes}
    (h : guarded ok p e c = .done ns last) : ok e c = true ∧ p () e c = .done ns last := by
  unfold guarded at h
  split at h
  · rename_i hok
    exact ⟨hok, h⟩
  · contradiction

theorem onNodes_eq_done {f : List Node → Nodes} (h : onNodes p f e c = .done ns last) :
    ∃ ms middle, p e c = .done ms middle ∧ f ms e middle = .done ns last := by
  unfold onNodes at h
  split at h
  · rename_i ms middle hp
    exact ⟨ms, middle, hp, h⟩
  · contradiction

theorem close_eq_done {kind : Kind} {before : List Node}
    (h : close kind before p e c = .done ns last) :
    ∃ ms, p e c = .done ms last ∧ ns = [Node.branch kind (before ++ ms)] := by
  unfold close at h
  split at h
  · rename_i ms next hp
    obtain ⟨rfl, rfl⟩ := Reply.done.inj h
    exact ⟨ms, hp, rfl⟩
  · contradiction

theorem extend_eq_done {kind : Kind} {role : Role} {left : Node}
    (h : extend kind role left p e c = .done ns last) :
    ∃ ms, p e c = .done ms last ∧ ns = [Node.branch kind (left.withRole role :: ms)] := by
  unfold extend at h
  split at h
  · rename_i ms next hp
    obtain ⟨rfl, rfl⟩ := Reply.done.inj h
    exact ⟨ms, hp, rfl⟩
  · contradiction

theorem roled_eq_done {role : Role} (h : roled role p e c = .done ns last) :
    (p e c = .done [] last ∧ ns = []) ∨
      ∃ n ms, p e c = .done (n :: ms) last ∧ ns = n.withRole role :: ms := by
  unfold roled at h
  split at h
  · rename_i n ms next hn
    obtain ⟨rfl, rfl⟩ := Reply.done.inj h
    exact .inr ⟨n, ms, hn, rfl⟩
  · rename_i hne
    cases ns with
    | nil => exact .inl ⟨h, rfl⟩
    | cons n ms => exact absurd h (hne n ms last)

theorem onNode_eq_done {f : Node → Nodes} [hp : Single p] (h : onNode p f e c = .done ns last) :
    ∃ n middle, p e c = .done [n] middle ∧ f n e middle = .done ns last := by
  unfold onNode at h
  split at h
  · rename_i n middle hn
    exact ⟨n, middle, hn, h⟩
  · rename_i hne
    obtain ⟨n, rfl⟩ := hp.ensures h
    exact absurd h (hne n last)

instance : Reads good d before fail := ⟨fun _ _ _ h => nomatch h⟩

instance : Reads good d [] nothing where
  reads _ hat hrun h := by
    obtain ⟨rfl, rfl⟩ := Reply.done.inj h
    exact ⟨hat, hrun⟩

instance (n : Node) : Reads good d [n] (Parser.pure [n]) where
  reads _ hat hrun h := by
    obtain ⟨rfl, rfl⟩ := Reply.done.inj h
    exact ⟨hat, hrun⟩

instance {q : Unit → Nodes} [hp : Reads good d before p] [hq : Reads good d [] (q ())] :
    Reads good d before (HAndThen.hAndThen p q) where
  reads he hat hrun h := by
    obtain ⟨front, middle, back, hfront, hback, rfl⟩ := andThen_eq_done h
    obtain ⟨hmiddle, hrunFront⟩ := hp.reads he hat hrun hfront
    obtain ⟨hlast, hrunBack⟩ := hq.reads he hmiddle (.nil (Nat.le_refl _)) hback
    exact ⟨hlast, hrunFront.append hrunBack⟩

instance {q : Unit → Nodes} [hp : Reads good d before p] [hq : Reads good d before (q ())] :
    Reads good d before (HOrElse.hOrElse p q) where
  reads he hat hrun h := by
    rcases orElse_eq_done h with h | ⟨n, h⟩
    · exact hp.reads he hat hrun h
    · exact hq.reads he (hat.withFurthest n) hrun h

theorem reads_guarded {ok : Env → Cursor → Bool} {p : Unit → Nodes}
    (h : Reads good d before (p ())) :
    Reads good d before (guarded ok p) :=
  ⟨fun he hat hrun hp => h.reads he hat hrun (guarded_eq_done hp).2⟩

instance {ok : Env → Cursor → Bool} {p : Unit → Nodes} [h : Reads good d before (p ())] :
    Reads good d before (guarded ok p) := reads_guarded h

instance {p : Unit → Nodes} [h : Reads good d before (p ())] : Reads good d before (typed p) :=
  reads_guarded h

instance {p : Unit → Nodes} [h : Reads good d before (p ())] : Reads good d before (sameLine p) :=
  reads_guarded h

theorem reads_onToken {f : Token → Nodes} (h : ∀ t, Reads good d before (f t)) :
    Reads good d before (onToken f) :=
  ⟨fun he hat hrun hp => (h _).reads he hat hrun hp⟩

instance {f : Token → Nodes} [h : ∀ t, Reads good d before (f t)] :
    Reads good d before (onToken f) :=
  reads_onToken h

instance {f : Dialect → Nodes} [h : Reads good d before (f d)] :
    Reads good d before (onDialect f) :=
  ⟨fun he hat hrun hp => h.reads he hat hrun (he ▸ hp)⟩

instance [Reads good d [] p] : Reads good d [] (opt p) :=
  inferInstanceAs (Reads good d [] (p <|> nothing))

instance {p : Unit → Nodes} [h : Reads good d [] (p ())] : Reads good d [] (ifTyped p) where
  reads he hat hrun hp := by
    unfold ifTyped at hp
    split at hp
    · exact h.reads he hat hrun hp
    · obtain ⟨rfl, rfl⟩ := Reply.done.inj hp
      exact ⟨hat, hrun⟩

instance : Reads good d [] (ahead p) where
  reads _ hat hrun h := by
    unfold ahead at h
    split at h
    · obtain ⟨rfl, rfl⟩ := Reply.done.inj h
      exact ⟨hat.withFurthest _, hrun⟩
    · contradiction

instance [h : Reads good d before p] : Reads good d before (bracketed p) where
  reads {_ e _ _ _ _} he hat hrun hp :=
    h.reads (e := { e with lineEnds := false, bareArrows := false }) he hat hrun hp

instance [h : Reads good d before p] : Reads good d before (lines p) where
  reads {_ e _ _ _ _} he hat hrun hp :=
    h.reads (e := { e with lineEnds := true, bareArrows := false }) he hat hrun hp

instance [h : Reads good d before p] : Reads good d before (bare p) where
  reads {_ e _ _ _ _} he hat hrun hp :=
    h.reads (e := { e with bareArrows := true }) he hat hrun hp

instance [h : Reads good d [] p] : Reads good d [] (many p) where
  reads he hat hrun hp := by
    have hgo (fuel : Nat) : Reads good d [] (many.go p fuel) := by
      induction fuel with
      | zero => exact inferInstanceAs (Reads good d [] nothing)
      | succ fuel ih =>
        refine ⟨fun he hat hrun hp => ?_⟩
        unfold many.go at hp
        split at hp
        · obtain ⟨rfl, rfl⟩ := Reply.done.inj hp
          exact ⟨hat.withFurthest _, hrun⟩
        · rename_i front middle hfront
          split at hp
          · obtain ⟨rfl, rfl⟩ := Reply.done.inj hp
            exact ⟨hat.withFurthest _, hrun⟩
          · split at hp
            · contradiction
            · rename_i back next hback
              obtain ⟨rfl, rfl⟩ := Reply.done.inj hp
              obtain ⟨hmiddle, hrunFront⟩ := h.reads he hat hrun hfront
              obtain ⟨hnext, hrunBack⟩ := ih.reads he hmiddle (.nil (Nat.le_refl _)) hback
              exact ⟨hnext, hrunFront.append hrunBack⟩
    exact (hgo _).reads he hat hrun hp

instance {sep : String} [Reads good d [] p] [Reads good d [] (mark sep)] :
    Reads good d [] (sepBy1 sep p) :=
  inferInstanceAs (Reads good d [] (p >> many (mark sep >> p)))

instance [Reads good d [] p] [Reads good d [] (mark ",")] : Reads good d [] (commaSep p) :=
  inferInstanceAs (Reads good d [] (opt p >> many (mark "," >> opt p)))

theorem reads_onNode {f : Node → Nodes} (hf : ∀ n, Reads good d [n] (f n))
    [hp : Reads good d before p] : Reads good d before (onNode p f) where
  reads he hat hrun h := by
    unfold onNode at h
    split at h
    · rename_i n next hn
      obtain ⟨hnext, hrunNext⟩ := hp.reads he hat hrun hn
      exact (hf n).reads he hnext hrunNext h
    · exact hp.reads he hat hrun h

instance {f : Node → Nodes} [Reads good d before p] [hf : ∀ n, Reads good d [n] (f n)] :
    Reads good d before (onNode p f) := reads_onNode hf

instance {step : Node → Nodes} [hp : Reads good d before p]
    [hstep : ∀ n, Reads good d [n] (step n)] :
    Reads good d before (chain p step) where
  reads he hat hrun h := by
    have hgo (fuel : Nat) (n : Node) : Reads good d [n] (chain.go step fuel n) := by
      induction fuel generalizing n with
      | zero => exact inferInstanceAs (Reads good d [n] (Parser.pure [n]))
      | succ fuel ih =>
        refine ⟨fun he hat hrun hp => ?_⟩
        unfold chain.go at hp
        split at hp
        · rename_i m next hm
          obtain ⟨hnext, hrunNext⟩ := (hstep n).reads he hat hrun hm
          exact (ih m).reads he hnext hrunNext hp
        · obtain ⟨rfl, rfl⟩ := Reply.done.inj hp
          exact ⟨hat.withFurthest _, hrun⟩
        · obtain ⟨rfl, rfl⟩ := Reply.done.inj hp
          exact ⟨hat.withFurthest _, hrun⟩
    unfold chain at h
    split at h
    · rename_i n next hn
      obtain ⟨hnext, hrunNext⟩ := hp.reads he hat hrun hn
      exact (hgo _ n).reads he hnext hrunNext h
    · exact hp.reads he hat hrun h

instance {f : List Node → Nodes} [hp : Reads good d before p] [hfills : Fills p]
    [hf : ∀ n ns, Reads good d (n :: ns) (f (n :: ns))] : Reads good d before (onNodes p f) where
  reads he hat hrun h := by
    obtain ⟨ms, middle, hms, hns⟩ := onNodes_eq_done h
    obtain ⟨hmiddle, hrunMiddle⟩ := hp.reads he hat hrun hms
    obtain ⟨n, ms, rfl⟩ := List.exists_cons_of_ne_nil (hfills.ensures hms)
    exact (hf n ms).reads he hmiddle hrunMiddle hns

theorem reads_leaf {kind : Kind} {named : Bool} {n : Nat}
    (hgood : ∀ start stop, good (Node.leaf kind named start stop)) {text : List Char} {left : Nat}
    (hat : c.At text) (hpos : 0 < n) (hle : n ≤ c.here.length) (hrun : Run good left c.behind [])
    (h : leaf kind named n e c = .done ns last) : last.At text ∧ Run good left last.behind ns := by
  obtain ⟨rfl, rfl⟩ := Reply.done.inj h
  have hbehind : (c.take n).behind = c.start + n := rfl
  have hleft := hrun.le
  have hstart := hat.behind_le
  refine ⟨hat.take hle, Node.orderedAll_cons.2 ⟨⟨?_, ?_, ?_, ?_⟩, ?_⟩, ?_⟩
  · exact Nat.le_trans hleft hstart
  · exact Nat.lt_add_of_pos_right hpos
  · exact Nat.le_refl _
  · exact Node.orderedAll_nil.2 (Nat.le_add_right _ _)
  · exact Node.orderedAll_nil.2 (Nat.le_refl _)
  · exact List.forall_mem_singleton.2 (hgood _ _)

/-- The next `n` characters, blanks included. -/
theorem reads_raw {kind : Kind} {named : Bool} {n : Nat}
    (hgood : ∀ start stop, good (Node.leaf kind named start stop)) {text : List Char} {left : Nat}
    (hat : c.At text) (hpos : 0 < n) (hle : n ≤ c.gap.length) (hrun : Run good left c.behind [])
    (h : Reply.done [Node.leaf kind named c.behind (c.behind + n)] (c.takeRaw n) = .done ns last) :
    last.At text ∧ Run good left last.behind ns := by
  obtain ⟨rfl, rfl⟩ := Reply.done.inj h
  have hbehind : (c.takeRaw n).behind = c.behind + n := rfl
  refine ⟨hat.takeRaw hle, Node.orderedAll_cons.2 ⟨⟨?_, ?_, ?_, ?_⟩, ?_⟩, ?_⟩
  · exact hrun.le
  · exact Nat.lt_add_of_pos_right hpos
  · exact Nat.le_refl _
  · exact Node.orderedAll_nil.2 (Nat.le_add_right _ _)
  · exact Node.orderedAll_nil.2 (Nat.le_refl _)
  · exact List.forall_mem_singleton.2 (hgood _ _)

theorem reads_rawMark {s : String} (hs : s.toList ≠ []) : Reads (Node.Good d) d [] (rawMark s) where
  reads _ hat hrun h := by
    obtain ⟨hmark, h⟩ := guarded_eq_done h
    have hle := (List.isPrefixOf_iff_prefix.1 hmark).length_le
    exact reads_raw (fun _ _ => .leaf _ _ _) hat (List.length_pos_iff.2 hs) hle hrun h

theorem reads_token {kind : Kind} {named : Bool}
    (hgood : ∀ start stop, good (Node.leaf kind named start stop)) :
    Reads good d [] (token kind named) where
  reads _ hat hrun h := by
    obtain ⟨hpos, h⟩ := guarded_eq_done h
    exact reads_leaf hgood hat (of_decide_eq_true hpos) hat.size_le hrun h

/-- Punctuation is read, where it is good. -/
theorem reads_mark (hgood : ∀ start stop, good (Node.leaf .other false start stop)) (s : String) :
    Reads good d [] (mark s) := reads_guarded (reads_token hgood)

theorem reads_character (hgood : ∀ start stop, good (Node.leaf .other false start stop))
    (x : Char) :
    Reads good d [] (character x) where
  reads _ hat hrun h := by
    obtain ⟨hhead, h⟩ := guarded_eq_done h
    have hsome := eq_of_beq hhead
    refine reads_leaf hgood hat Nat.one_pos ?_ hrun h
    exact List.length_pos_iff.2 fun hnil => by simp [hnil] at hsome

instance {kind : Kind} {named : Bool} [Holds kind.isPlain] :
    Reads (Node.Good d) d [] (token kind named) :=
  reads_token fun _ _ => .leaf _ _ _

instance {s : String} : Reads (Node.Good d) d [] (mark s) := reads_mark (fun _ _ => .leaf _ _ _) s

instance {s : String} : Reads (Node.Good d) d [] (keyword s) :=
  inferInstanceAs (Reads _ _ _ (guarded _ fun _ => token .other false))

instance {x : Char} : Reads (Node.Good d) d [] (character x) :=
  reads_character (fun _ _ => .leaf _ _ _) x

instance : Reads good d [] (guarded closes fun _ => nothing) := inferInstance

instance : Reads (Node.Good d) d [] semicolon :=
  inferInstanceAs (Reads _ _ _ (mark ";" <|> guarded closes fun _ => nothing))

variable {Q : List Node → Prop} {q : Unit → Nodes} {kind : Kind} {role : Role}

theorem ensures_true : Ensures (fun _ => True) p := ⟨fun _ => trivial⟩

instance : Ensures Q fail := ⟨fun h => nomatch h⟩

instance [hp : Ensures Q p] [hq : Ensures Q (q ())] : Ensures Q (HOrElse.hOrElse p q) where
  ensures h := by
    rcases orElse_eq_done h with h | ⟨n, h⟩
    · exact hp.ensures h
    · exact hq.ensures h

theorem ensures_guarded {ok : Env → Cursor → Bool} (h : Ensures Q (q ())) :
    Ensures Q (guarded ok q) :=
  ⟨fun hp => h.ensures (guarded_eq_done hp).2⟩

instance {ok : Env → Cursor → Bool} [h : Ensures Q (q ())] : Ensures Q (guarded ok q) :=
  ensures_guarded h

instance [h : Ensures Q (q ())] : Ensures Q (typed q) := ensures_guarded h

instance [h : Ensures Q (q ())] : Ensures Q (sameLine q) := ensures_guarded h

theorem ensures_onToken {f : Token → Nodes} (h : ∀ t, Ensures Q (f t)) : Ensures Q (onToken f) :=
  ⟨fun hp => (h _).ensures hp⟩

instance {f : Token → Nodes} [h : ∀ t, Ensures Q (f t)] : Ensures Q (onToken f) := ensures_onToken h

instance {f : Dialect → Nodes} [h : ∀ d, Ensures Q (f d)] : Ensures Q (onDialect f) :=
  ⟨fun hp => (h _).ensures hp⟩

instance [h : Ensures Q p] : Ensures Q (bracketed p) := ⟨fun hp => h.ensures hp⟩

instance [h : Ensures Q p] : Ensures Q (lines p) := ⟨fun hp => h.ensures hp⟩

instance [h : Ensures Q p] : Ensures Q (bare p) := ⟨fun hp => h.ensures hp⟩

instance {b : Prop} [Decidable b] {p q : Nodes} [hp : Ensures Q p] [hq : Ensures Q q] :
    Ensures Q (if b then p else q) := by
  split <;> assumption

instance [h : Single p] : Fills p where
  ensures hp := by
    obtain ⟨n, rfl⟩ := h.ensures hp
    exact List.cons_ne_nil n []

instance [h : Fills p] : Fills (HAndThen.hAndThen p q) where
  ensures hp := by
    obtain ⟨front, middle, back, hfront, -, rfl⟩ := andThen_eq_done hp
    exact List.append_ne_nil_of_left_ne_nil (h.ensures hfront) back

instance [h : Fills (q ())] : Fills (HAndThen.hAndThen p q) where
  ensures hp := by
    obtain ⟨front, middle, back, -, hback, rfl⟩ := andThen_eq_done hp
    exact List.append_ne_nil_of_right_ne_nil front (h.ensures hback)

instance [h : Fills p] : Fills (roled role p) where
  ensures hp := by
    rcases roled_eq_done hp with ⟨hnil, -⟩ | ⟨n, ms, -, rfl⟩
    · exact absurd rfl (h.ensures hnil)
    · exact List.cons_ne_nil _ ms

instance [h : Gives role p] : Gives role (HAndThen.hAndThen p q) where
  ensures hp := by
    obtain ⟨front, middle, back, hfront, -, rfl⟩ := andThen_eq_done hp
    obtain ⟨n, hn, hrole⟩ := h.ensures hfront
    exact ⟨n, List.mem_append_left back hn, hrole⟩

instance [h : Gives role (q ())] : Gives role (HAndThen.hAndThen p q) where
  ensures hp := by
    obtain ⟨front, middle, back, -, hback, rfl⟩ := andThen_eq_done hp
    obtain ⟨n, hn, hrole⟩ := h.ensures hback
    exact ⟨n, List.mem_append_right front hn, hrole⟩

instance [h : Fills p] : Gives role (roled role p) where
  ensures hp := by
    rcases roled_eq_done hp with ⟨hnil, -⟩ | ⟨n, ms, -, rfl⟩
    · exact absurd rfl (h.ensures hnil)
    · exact ⟨_, List.mem_cons_self, rfl⟩

/-- A node that is closed over nodes with a role has a child for the role. -/
theorem has_of_close {before : List Node} {n : Node} (h : close kind before p e c = .done ns last)
    (hrole : ∃ m ∈ before, m.role = some role) (hn : n ∈ ns) :
    n.kind = kind ∧ n.has role = true := by
  obtain ⟨ms, -, rfl⟩ := close_eq_done h
  obtain rfl := List.mem_singleton.1 hn
  obtain ⟨m, hm, hmrole⟩ := hrole
  refine ⟨rfl, ?_⟩
  rw [Node.has, Node.child?, List.find?_isSome]
  exact ⟨m, List.mem_append_left ms hm, beq_iff_eq.2 hmrole⟩

instance {sep : String} [Fills p] : Fills (sepBy1 sep p) :=
  inferInstanceAs (Fills (p >> many (mark sep >> p)))

theorem ensures_onNodes {R : List Node → Prop} {f : List Node → Nodes} (hp : Ensures R p)
    (hf : ∀ ns, R ns → Ensures Q (f ns)) : Ensures Q (onNodes p f) where
  ensures h := by
    obtain ⟨ms, middle, hms, hns⟩ := onNodes_eq_done h
    exact (hf ms (hp.ensures hms)).ensures hns

theorem single_leaf {n : Node} (h : Reply.done [n] c = .done ns last) : ∃ n, ns = [n] := by
  obtain ⟨rfl, rfl⟩ := Reply.done.inj h
  exact ⟨n, rfl⟩

instance (n : Node) : Single (Parser.pure [n]) := ⟨single_leaf⟩

instance {named : Bool} : Single (token kind named) :=
  ensures_guarded ⟨single_leaf⟩

instance {s : String} : Single (mark s) :=
  inferInstanceAs (Single (guarded _ fun _ => token .other false))

instance {s : String} : Single (keyword s) :=
  inferInstanceAs (Single (guarded _ fun _ => token .other false))

instance {x : Char} : Single (character x) := ensures_guarded ⟨single_leaf⟩

instance : Single (branch kind p) where
  ensures h := by
    obtain ⟨ms, -, rfl⟩ := branch_eq_done h
    exact ⟨_, rfl⟩

instance {before : List Node} : Single (close kind before p) where
  ensures h := by
    obtain ⟨ms, -, rfl⟩ := close_eq_done h
    exact ⟨_, rfl⟩

instance {left : Node} : Single (extend kind role left p) where
  ensures h := by
    obtain ⟨ms, -, rfl⟩ := extend_eq_done h
    exact ⟨_, rfl⟩

instance : Single (group kind p) where
  ensures h := by
    unfold group at h
    split at h
    · exact single_leaf h
    · exact single_leaf h
    · contradiction

instance [h : Single p] : Single (roled role p) where
  ensures hp := by
    rcases roled_eq_done hp with ⟨hnil, -⟩ | ⟨n, ms, hn, rfl⟩
    · obtain ⟨n, hn⟩ := h.ensures hnil
      contradiction
    · obtain ⟨m, hm⟩ := h.ensures hn
      obtain ⟨-, rfl⟩ := List.cons.inj hm
      exact ⟨_, rfl⟩

instance {f : Node → Node} [h : Single p] : Single (mapped f p) where
  ensures hp := by
    unfold mapped at hp
    split at hp
    · rename_i hn
      obtain ⟨m, rfl⟩ := h.ensures hn
      exact single_leaf hp
    · contradiction

theorem single_onNode {f : Node → Nodes} [hp : Single p] (hf : ∀ n, Single (f n)) :
    Single (onNode p f) where
  ensures h := by
    obtain ⟨n, middle, -, hn⟩ := onNode_eq_done h
    exact (hf n).ensures hn

instance {f : Node → Nodes} [Single p] [hf : ∀ n, Single (f n)] : Single (onNode p f) :=
  single_onNode hf

instance {f : List Node → Nodes} [hf : ∀ ns, Single (f ns)] : Single (onNodes p f) where
  ensures h := by
    obtain ⟨ms, middle, -, hns⟩ := onNodes_eq_done h
    exact (hf ms).ensures hns

instance {step : Node → Nodes} [hp : Single p] : Single (chain p step) where
  ensures h := by
    have hgo (fuel : Nat) (n : Node) : Single (chain.go step fuel n) := by
      induction fuel generalizing n with
      | zero => exact inferInstanceAs (Single (Parser.pure [n]))
      | succ fuel ih =>
        refine ⟨fun h => ?_⟩
        unfold chain.go at h
        split at h
        · exact (ih _).ensures h
        · exact single_leaf h
        · exact single_leaf h
    unfold chain at h
    split at h
    · exact (hgo _ _).ensures h
    · exact hp.ensures h

instance {b : Prop} [Decidable b] {p q : Nodes} [hp : Reads good d before p]
    [hq : Reads good d before q] : Reads good d before (if b then p else q) := by
  split <;> assumption

instance [Holds kind.isPlain] [hp : Reads (Node.Good d) d before p] [hf : Fills p] :
    Reads (Node.Good d) d before (branch kind p) where
  reads he hat hrun h := by
    obtain ⟨ms, hms, rfl⟩ := branch_eq_done h
    obtain ⟨hlast, hrunLast⟩ := hp.reads he hat hrun hms
    exact ⟨hlast, hrunLast.branch (hf.ensures hms) (.branch Holds.eq_true hrunLast.good)⟩

instance [Holds kind.isPlain] [hp : Reads (Node.Good d) d before p] [hf : Fills p] :
    Reads (Node.Good d) d before (group kind p) where
  reads he hat hrun h := by
    unfold group at h
    split at h
    · rename_i hn
      obtain ⟨rfl, rfl⟩ := Reply.done.inj h
      exact hp.reads he hat hrun hn
    · rename_i ms next _ hms
      obtain ⟨rfl, rfl⟩ := Reply.done.inj h
      obtain ⟨hlast, hrunLast⟩ := hp.reads he hat hrun hms
      exact ⟨hlast, hrunLast.branch (hf.ensures hms) (.branch Holds.eq_true hrunLast.good)⟩
    · contradiction

instance {n : Node} [Holds kind.isPlain] [hp : Reads (Node.Good d) d [] p] :
    Reads (Node.Good d) d (n :: before) (close kind (n :: before) p) where
  reads he hat hrun h := by
    obtain ⟨ms, hms, rfl⟩ := close_eq_done h
    obtain ⟨hlast, hrunLast⟩ := hp.reads he hat (.nil (Nat.le_refl _)) hms
    have hall := hrun.append hrunLast
    exact ⟨hlast, hall.branch (List.cons_ne_nil _ _) (.branch Holds.eq_true hall.good)⟩

instance {left : Node} [Holds kind.isPlain] [Holds role.isPlain] [hp : Reads (Node.Good d) d [] p] :
    Reads (Node.Good d) d [left] (extend kind role left p) where
  reads he hat hrun h := by
    obtain ⟨ms, hms, rfl⟩ := extend_eq_done h
    obtain ⟨hlast, hrunLast⟩ := hp.reads he hat (.nil (Nat.le_refl _)) hms
    have hrole : Node.Suits role left := Node.suits_of_isPlain left
    have hall := (hrun.withRole hrole).append hrunLast
    exact ⟨hlast, hall.branch (List.cons_ne_nil _ _) (.branch Holds.eq_true hall.good)⟩

/-- A parser whose first node suits a role. -/
theorem reads_roled [hp : Reads (Node.Good d) d before p]
    (hrole : Ensures (fun ns => ∀ n ∈ ns.head?, Node.Suits role n) p) :
    Reads (Node.Good d) d before (roled role p) where
  reads he hat hrun h := by
    rcases roled_eq_done h with ⟨hnil, rfl⟩ | ⟨n, ms, hn, rfl⟩
    · exact hp.reads he hat hrun hnil
    · obtain ⟨hlast, hrunLast⟩ := hp.reads he hat hrun hn
      exact ⟨hlast, hrunLast.withRole (hrole.ensures hn n rfl)⟩

instance [Holds role.isPlain] [Reads (Node.Good d) d before p] :
    Reads (Node.Good d) d before (roled role p) := by
  refine reads_roled ⟨fun _ n _ => ?_⟩
  exact Node.suits_of_isPlain n

/-- A node over what a parser yields is as good as its kind asks. -/
theorem reads_branch {better : Node → Prop} (hp : Reads good d [] p) [hf : Fills p]
    (hq : Ensures Q p) (hbranch : ∀ ns, (∀ n ∈ ns, good n) → Q ns → better (Node.branch kind ns)) :
    Reads better d [] (branch kind p) where
  reads he hat hrun h := by
    obtain ⟨ms, hms, rfl⟩ := branch_eq_done h
    obtain ⟨hlast, hrunLast⟩ := hp.reads he hat (.nil hrun.le) hms
    exact ⟨hlast, hrunLast.branch (hf.ensures hms) (hbranch ms hrunLast.good (hq.ensures hms))⟩

theorem reads_imp {better : Node → Prop} (hgood : ∀ n, good n → better n) [hp : Reads good d [] p] :
    Reads better d [] p where
  reads he hat hrun h := by
    obtain ⟨hlast, hrunLast⟩ := hp.reads he hat (.nil hrun.le) h
    exact ⟨hlast, hrunLast.imp fun n _ => hgood n⟩

/-- What is known of the nodes that a parser yields, comments and punctuation left out. -/
def Shows (Q : List Node → Prop) (ns : List Node) : Prop :=
  Q (ns.filter fun c => c.named && c.kind != .comment)

theorem not_named_mark {s : String} (h : mark s e c = .done ns last) :
    ∀ n ∈ ns, n.named = false := by
  obtain ⟨-, h⟩ := guarded_eq_done h
  obtain ⟨-, h⟩ := guarded_eq_done h
  obtain ⟨rfl, rfl⟩ := Reply.done.inj h
  exact List.forall_mem_singleton.2 rfl

theorem filter_of_not_named (h : ∀ n ∈ ns, n.named = false) :
    (ns.filter fun c => c.named && c.kind != .comment) = [] :=
  List.filter_eq_nil_iff.2 fun n hn => by simp [h n hn]

instance {s : String} [hq : Ensures (Shows Q) (q ())] :
    Ensures (Shows Q) (HAndThen.hAndThen (mark s) q) where
  ensures h := by
    obtain ⟨front, middle, back, hfront, hback, rfl⟩ := andThen_eq_done h
    have hshows := hq.ensures hback
    rwa [Shows, List.filter_append, filter_of_not_named (not_named_mark hfront)]

instance {s : String} [hp : Ensures (Shows Q) p] : Ensures (Shows Q) (p >> mark s) where
  ensures h := by
    obtain ⟨front, middle, back, hfront, hback, rfl⟩ := andThen_eq_done h
    have hshows := hp.ensures hfront
    rwa [Shows, List.filter_append, filter_of_not_named (not_named_mark hback), List.append_nil]

instance [hp : Single p] : Ensures (Shows (·.length ≤ 1)) p where
  ensures h := by
    obtain ⟨n, rfl⟩ := hp.ensures h
    exact List.length_filter_le _ [n]

instance [hp : Ensures (Shows (·.length ≤ 1)) p] : Ensures (Shows (·.length ≤ 1)) (opt p) where
  ensures h := by
    rcases orElse_eq_done h with h | ⟨n, h⟩
    · exact hp.ensures h
    · obtain ⟨rfl, rfl⟩ := Reply.done.inj h
      exact Nat.zero_le 1

/-- Good nodes stay good where they are renamed in place. -/
theorem reads_mapped {f : Node → Node}
    (hcovers : ∀ n, (f n).start = n.start ∧ (f n).stop = n.stop ∧ (f n).ordered = n.ordered)
    (hgood : ∀ n, n.Good d → (f n).Good d) [hp : Reads (Node.Good d) d [] p] :
    Reads (Node.Good d) d [] (mapped f p) where
  reads he hat hrun h := by
    unfold mapped at h
    split at h
    · rename_i ms next hms
      obtain ⟨rfl, rfl⟩ := Reply.done.inj h
      obtain ⟨hlast, hrunLast⟩ := hp.reads he hat hrun hms
      refine ⟨hlast, ?_, List.forall_mem_map.2 fun n hn => hgood n (hrunLast.good n hn)⟩
      rw [Node.orderedAll_map hcovers]
      exact hrunLast.ordered
    · contradiction

end Parser
end QualityGate.Syntax
