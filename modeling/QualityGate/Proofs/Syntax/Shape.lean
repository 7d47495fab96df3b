import QualityGate.Syntax.Node

/-!
What a tree has to be like, said of lists of nodes: nodes that stand side by side between two
offsets, tokens that are leaves, and nodes that have the children of their kinds.
-/
namespace QualityGate.Syntax.Node

variable {n c : Node} {ns ms : List Node} {left middle right : Nat} {typed : Bool}

theorem ordered_eq (n : Node) : n.ordered = orderedAll n.start n.stop n.children := by
  cases n
  rfl

mutual
/-- What holds of a node when it holds of its children holds of every node. -/
theorem induct {motive : Node → Prop} (h : ∀ n, (∀ c ∈ n.children, motive c) → motive n) :
    (n : Node) → motive n
  | ⟨_, _, _, _, _, children⟩ => h _ (inductAll h children)

theorem inductAll {motive : Node → Prop} (h : ∀ n, (∀ c ∈ n.children, motive c) → motive n) :
    (ns : List Node) → ∀ n ∈ ns, motive n
  | [] => List.forall_mem_nil _
  | n :: ns => List.forall_mem_cons.2 ⟨induct h n, inductAll h ns⟩
end

/-- An ordered node between two offsets. -/
structure Inside (left right : Nat) (n : Node) : Prop where
  left_le : left ≤ n.start
  start_lt : n.start < n.stop
  le_right : n.stop ≤ right
  ordered : n.ordered = true

theorem orderedAll_cons : orderedAll left right (n :: ns) = true ↔
    Inside left right n ∧ orderedAll n.stop right ns = true := by
  simp only [orderedAll, Bool.and_eq_true, decide_eq_true_eq]
  exact ⟨fun ⟨⟨⟨⟨hleft, hlt⟩, hright⟩, hn⟩, hns⟩ => ⟨⟨hleft, hlt, hright, hn⟩, hns⟩,
    fun ⟨⟨hleft, hlt, hright, hn⟩, hns⟩ => ⟨⟨⟨⟨hleft, hlt⟩, hright⟩, hn⟩, hns⟩⟩

theorem orderedAll_nil : orderedAll left right [] = true ↔ left ≤ right := decide_eq_true_iff

theorem le_of_orderedAll (h : orderedAll left right ns = true) : left ≤ right := by
  induction ns generalizing left with
  | nil => exact orderedAll_nil.1 h
  | cons n ns ih =>
    obtain ⟨hn, hns⟩ := orderedAll_cons.1 h
    have := ih hns
    have := hn.left_le
    have := hn.start_lt
    omega

theorem Inside.widen {left' right' : Nat} (h : Inside left right n) (hl : left' ≤ left)
    (hr : right ≤ right') : Inside left' right' n :=
  { h with left_le := Nat.le_trans hl h.left_le, le_right := Nat.le_trans h.le_right hr }

theorem Inside.own (h : Inside left right n) : Inside n.start n.stop n :=
  { h with left_le := Nat.le_refl _, le_right := Nat.le_refl _ }

theorem orderedAll_widen {left' : Nat} (h : orderedAll left right ns = true) (hl : left' ≤ left) :
    orderedAll left' right ns = true := by
  cases ns with
  | nil => exact orderedAll_nil.2 (Nat.le_trans hl (orderedAll_nil.1 h))
  | cons n ns =>
    obtain ⟨hn, hns⟩ := orderedAll_cons.1 h
    exact orderedAll_cons.2 ⟨hn.widen hl (Nat.le_refl _), hns⟩

theorem orderedAll_append (h : orderedAll left middle ms = true)
    (k : orderedAll middle right ns = true) : orderedAll left right (ms ++ ns) = true := by
  induction ms generalizing left with
  | nil => exact orderedAll_widen k (orderedAll_nil.1 h)
  | cons n ms ih =>
    obtain ⟨hn, hms⟩ := orderedAll_cons.1 h
    exact orderedAll_cons.2 ⟨hn.widen (Nat.le_refl _) (le_of_orderedAll k), ih hms⟩

theorem orderedAll_map {f : Node → Node}
    (hf : ∀ n, (f n).start = n.start ∧ (f n).stop = n.stop ∧ (f n).ordered = n.ordered) :
    orderedAll left right (ns.map f) = orderedAll left right ns := by
  induction ns generalizing left with
  | nil => rfl
  | cons n ns ih =>
    obtain ⟨hstart, hstop, hordered⟩ := hf n
    rw [List.map_cons, orderedAll, orderedAll, hstart, hstop, hordered, ih]

/-- Nodes side by side fill the node over them from its start to its stop. -/
theorem orderedAll_branch (kind : Kind) (hne : ns ≠ []) (h : orderedAll left right ns = true) :
    orderedAll left right [branch kind ns] = true := by
  have hinner (n : Node) (ns : List Node) (left : Nat) (h : orderedAll left right (n :: ns) =
    true) :
      Inside left right n ∧ ∃ last, (n :: ns).getLast? = some last ∧ n.stop ≤ last.stop ∧
        last.stop ≤ right ∧ orderedAll n.start last.stop (n :: ns) = true := by
    induction ns generalizing n left with
    | nil =>
      obtain ⟨hn, -⟩ := orderedAll_cons.1 h
      exact ⟨hn, n, rfl, Nat.le_refl _, hn.le_right,
        orderedAll_cons.2 ⟨hn.own, orderedAll_nil.2 (Nat.le_refl _)⟩⟩
    | cons m ns ih =>
      obtain ⟨hn, hns⟩ := orderedAll_cons.1 h
      obtain ⟨hm, last, hlast, hstop, hright, hordered⟩ := ih m n.stop hns
      have hmn : n.stop ≤ last.stop := by
        have := hm.left_le
        have := hm.start_lt
        omega
      refine ⟨hn, last, by rw [List.getLast?_cons_cons, hlast], hmn, hright, ?_⟩
      exact orderedAll_cons.2
        ⟨hn.own.widen (Nat.le_refl _) hmn, orderedAll_widen hordered hm.left_le⟩
  obtain ⟨n, ns, rfl⟩ := List.exists_cons_of_ne_nil hne
  obtain ⟨hn, last, hlast, hstop, hright, hordered⟩ := hinner n ns left h
  have hbranch : branch kind (n :: ns) = ⟨kind, none, true, n.start, last.stop, n :: ns⟩ := by
    simp [branch, hlast]
  rw [hbranch]
  exact orderedAll_cons.2 ⟨⟨hn.left_le, Nat.lt_of_lt_of_le hn.start_lt hstop, hright, hordered⟩,
    orderedAll_nil.2 hright⟩

theorem markedAll_iff : markedAll ns = true ↔ ∀ n ∈ ns, n.marked = true := by
  induction ns with
  | nil => simp [markedAll]
  | cons n ns ih => rw [markedAll, Bool.and_eq_true, ih, List.forall_mem_cons]

theorem marked_iff : n.marked = true ↔ (n.named = false → n.children = []) ∧
    startsWith n.children.head? n.kind = true ∧ ∀ c ∈ n.children, c.marked = true := by
  cases n with
  | mk kind role named start stop children =>
    rw [marked, Bool.and_eq_true, Bool.and_eq_true, markedAll_iff, Bool.or_eq_true,
      List.isEmpty_iff, and_assoc]
    cases named <;> simp

theorem shapedAll_iff : shapedAll typed ns = true ↔ ∀ n ∈ ns, n.shaped typed = true := by
  induction ns with
  | nil => simp [shapedAll]
  | cons n ns ih => rw [shapedAll, Bool.and_eq_true, ih, List.forall_mem_cons]

theorem shaped_iff : n.shaped typed = true ↔
    n.hasShape typed = true ∧ ∀ c ∈ n.children, c.shaped typed = true := by
  cases n
  rw [shaped, Bool.and_eq_true, shapedAll_iff]

end QualityGate.Syntax.Node
