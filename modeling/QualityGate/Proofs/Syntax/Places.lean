import QualityGate.Syntax.SourceFile
import Mathlib.Data.List.Pairwise
import Mathlib.Order.Lattice.Nat
import Mathlib.Tactic.SplitIfs

/-!
Places of a tree and what their nodes cover. A place is reached from the root through children only,
and so is whatever stands above it. In a parsed file nodes lie inside their parents and apart from
their siblings; a later offset has a later line, or a later column of the same one.
-/
namespace QualityGate.Syntax

namespace Node

variable {n root : Node} {ns above : List Node} {p : Place}

theorem placesAll_eq_flatMap (above ns : List Node) :
    placesAll above ns = ns.flatMap (places above) := by
  induction ns with
  | nil => rfl
  | cons n ns ih => rw [placesAll, ih, List.flatMap_cons]

theorem mem_placesAll : p ∈ placesAll above ns ↔ ∃ n ∈ ns, p ∈ places above n := by
  rw [placesAll_eq_flatMap, List.mem_flatMap]

theorem self_mem_places (above : List Node) (n : Node) : ⟨n, above⟩ ∈ places above n := by
  rw [places_eq]
  exact List.mem_cons_self

mutual
/-- What passes from places to those of their children holds of all places. -/
theorem forall_mem_places {motive : Place → Prop}
    (below : ∀ p : Place, motive p → ∀ c ∈ p.node.children, motive ⟨c, p.node :: p.above⟩)
    (above : List Node) : (n : Node) → motive ⟨n, above⟩ → ∀ p ∈ places above n, motive p
  | ⟨kind, role, named, start, stop, children⟩, top, p, hp => by
    rcases List.mem_cons.1 hp with rfl | hp
    · exact top
    · exact forall_mem_placesAll below _ children (below _ top) p hp

theorem forall_mem_placesAll {motive : Place → Prop}
    (below : ∀ p : Place, motive p → ∀ c ∈ p.node.children, motive ⟨c, p.node :: p.above⟩)
    (above : List Node) : (ns : List Node) → (∀ n ∈ ns, motive ⟨n, above⟩) →
      ∀ p ∈ placesAll above ns, motive p
  | [], _, p, hp => absurd hp List.not_mem_nil
  | n :: ns, tops, p, hp => by
    rw [List.forall_mem_cons] at tops
    rcases List.mem_append.1 hp with hp | hp
    · exact forall_mem_places below above n tops.1 p hp
    · exact forall_mem_placesAll below above ns tops.2 p hp
end

mutual
theorem child_mem_places {c : Node} (hc : c ∈ p.node.children) (above : List Node) : (n : Node) →
    p ∈ places above n → ⟨c, p.node :: p.above⟩ ∈ places above n
  | ⟨kind, role, named, start, stop, children⟩, hp => by
    refine List.mem_cons_of_mem _ ?_
    rcases List.mem_cons.1 hp with rfl | hp
    · exact mem_placesAll.2 ⟨c, hc, self_mem_places _ c⟩
    · exact child_mem_placesAll hc _ children hp

theorem child_mem_placesAll {c : Node} (hc : c ∈ p.node.children) (above : List Node) :
    (ns : List Node) → p ∈ placesAll above ns → ⟨c, p.node :: p.above⟩ ∈ placesAll above ns
  | [], hp => absurd hp List.not_mem_nil
  | n :: ns, hp => by
    rcases List.mem_append.1 hp with hp | hp
    · exact List.mem_append_left _ (child_mem_places hc above n hp)
    · exact List.mem_append_right _ (child_mem_placesAll hc above ns hp)
end

/-- The places below a place are places of the tree. -/
theorem places_subset {q : Place} (hq : q ∈ places above root) :
    places q.above q.node ⊆ places above root :=
  forall_mem_places (motive := (· ∈ places above root)) (fun _ hp _ hc =>
    child_mem_places hc above root hp)
    q.above q.node hq

namespace Place

/-- The node and those above it, from the place up to the root. -/
def path (p : Place) : List Node := p.node :: p.above

/-- Whether the way to a place leads through another one, or ends there. -/
def Passes (p q : Place) : Prop := q.path <:+ p.path

theorem path_injective : Function.Injective path := by
  rintro ⟨m, above⟩ ⟨n, above'⟩ h
  obtain ⟨rfl, rfl⟩ := List.cons.inj h
  rfl

theorem passes_child {c : Node} {q : Place} : Passes ⟨c, p.path⟩ q ↔ q = ⟨c, p.path⟩ ∨ p.Passes q :=
  List.suffix_cons_iff.trans (or_congr_left (path_injective.eq_iff (a := q) (b := ⟨c, p.path⟩)))

theorem passes_root {q : Place} : Passes ⟨n, []⟩ q ↔ q = ⟨n, []⟩ := by
  refine (List.suffix_cons_iff.trans (or_iff_left ?_)).trans path_injective.eq_iff
  rw [List.suffix_nil]
  exact List.cons_ne_nil q.node q.above

/-- What the way to a place passes is a place itself, and the way goes on below it. -/
theorem Passes.mem_places {q : Place} (h : p.Passes q) (hp : p ∈ places [] root) :
    q ∈ places [] root ∧ p ∈ places q.above q.node := by
  suffices p ∈ places [] root ∧ ∀ q, p.Passes q →
      q ∈ places [] root ∧ p ∈ places q.above q.node from
    this.2 q h
  refine forall_mem_places (motive := fun p => p ∈ places [] root ∧
    ∀ q, p.Passes q → q ∈ places [] root ∧ p ∈ places q.above q.node) ?below [] root ?top p hp
  -- The way to a child is the child and the way to its parent.
  case below =>
    rintro p ⟨hp, ih⟩ c hc
    have hchild := child_mem_places hc [] root hp
    refine ⟨hchild, fun q hq => ?_⟩
    rcases passes_child.1 hq with rfl | hq
    · exact ⟨hchild, self_mem_places _ _⟩
    · exact ⟨(ih q hq).1, child_mem_places hc q.above q.node (ih q hq).2⟩
  case top =>
    refine ⟨self_mem_places [] root, fun q hq => ?_⟩
    obtain rfl := passes_root.1 hq
    exact ⟨self_mem_places [] root, self_mem_places [] root⟩

end Place

/-- With more nodes above the root there are more above all places. -/
theorem mem_places_iff : p ∈ places above n ↔
    ∃ q ∈ places [] n, p = ⟨q.node, q.above ++ above⟩ := by
  constructor
  · refine forall_mem_places (motive := fun p => ∃ q ∈ places [] n, p = ⟨q.node, q.above ++ above⟩)
      ?_ above n ⟨⟨n, []⟩, self_mem_places [] n, rfl⟩ p
    rintro _ ⟨q, hq, rfl⟩ c hc
    exact ⟨⟨c, q.node :: q.above⟩, child_mem_places (p := q) hc [] n hq, rfl⟩
  · rintro ⟨q, hq, rfl⟩
    exact forall_mem_places (motive := fun q => ⟨q.node, q.above ++ above⟩ ∈ places above n)
      (fun q hq c hc => child_mem_places (p := ⟨q.node, q.above ++ above⟩) hc above n hq)
      [] n (self_mem_places above n) q hq

/-- The way up from a place ends at the root. -/
theorem getLast?_path (hp : p ∈ places [] n) : p.path.getLast? = some n := by
  refine forall_mem_places (motive := fun p => p.path.getLast? = some n)
    (fun q hq c _ => ?_) [] n rfl p hp
  rwa [Place.path, List.getLast?_cons_cons]

variable {left right : ℕ}

theorem inside_of_orderedAll (h : orderedAll left right ns = true) :
    ∀ n ∈ ns, Inside left right n := by
  induction ns generalizing left with
  | nil => exact List.forall_mem_nil _
  | cons n ns ih =>
    obtain ⟨hn, hns⟩ := orderedAll_cons.1 h
    refine List.forall_mem_cons.2 ⟨hn, fun m hm => (ih hns m hm).widen ?_ le_rfl⟩
    exact hn.left_le.trans hn.start_lt.le

/-- Siblings stand one after the other. -/
theorem pairwise_of_orderedAll (h : orderedAll left right ns = true) :
    ns.Pairwise fun m n => m.stop ≤ n.start := by
  induction ns generalizing left with
  | nil => exact .nil
  | cons n ns ih =>
    obtain ⟨-, hns⟩ := orderedAll_cons.1 h
    exact List.pairwise_cons.2 ⟨fun m hm => (inside_of_orderedAll hns m hm).left_le, ih hns⟩

/-- Of two siblings one stands before the other. -/
theorem apart_of_orderedAll {c d : Node} (h : orderedAll left right ns = true) (hc : c ∈ ns)
    (hd : d ∈ ns) (hne : c ≠ d) : c.stop ≤ d.start ∨ d.stop ≤ c.start := by
  have : Std.Symm fun c d : Node => c.stop ≤ d.start ∨ d.stop ≤ c.start := ⟨fun _ _ => Or.symm⟩
  have hapart : ns.Pairwise fun c d => c.stop ≤ d.start ∨ d.stop ≤ c.start :=
    (pairwise_of_orderedAll h).imp .inl
  exact hapart.forall hc hd hne

theorem orderedAll_sublist {ms : List Node} (h : orderedAll left right ns = true)
    (hs : ms.Sublist ns) :
    orderedAll left right ms = true := by
  induction hs generalizing left with
  | slnil => exact h
  | cons n _ ih =>
    obtain ⟨hn, hns⟩ := orderedAll_cons.1 h
    exact ih (orderedAll_widen hns (hn.left_le.trans hn.start_lt.le))
  | cons_cons n _ ih =>
    obtain ⟨hn, hns⟩ := orderedAll_cons.1 h
    exact orderedAll_cons.2 ⟨hn, ih hns⟩

theorem Inside.child (h : Inside left right n) {c : Node} (hc : c ∈ n.children) :
    Inside left right c :=
  (inside_of_orderedAll (ordered_eq n ▸ h.ordered) c hc).widen h.left_le h.le_right

theorem Inside.of_mem_places (h : Inside left right n) (hp : p ∈ places above n) :
    Inside left right p.node :=
  forall_mem_places (motive := fun p => Inside left right p.node) (fun _ hp _ hc =>
    hp.child hc) above n h p hp

theorem inside_of_mem_placesAll (h : orderedAll left right ns = true)
    (hp : p ∈ placesAll above ns) : Inside left right p.node := by
  obtain ⟨n, hn, hp⟩ := mem_placesAll.1 hp
  exact (inside_of_orderedAll h n hn).of_mem_places hp

mutual
/-- Of two places one is below the other, or they stand apart. So a relation that holds of places
that stand apart holds of all, each before those after it, just if it holds of each one and those
below it. -/
theorem pairwise_places_iff {S : Place → Place → Prop} (above : List Node) :
    (n : Node) → ∀ {left right : ℕ}, Inside left right n →
    (∀ p ∈ places above n, ∀ q ∈ places above n, p.node.stop ≤ q.node.start → S p q) →
    ((places above n).Pairwise S ↔
      ∀ p ∈ places above n, ∀ q ∈ placesAll p.path p.node.children, S p q)
  | ⟨kind, role, named, start, stop, children⟩, left, right, hinside, apart => by
    obtain ⟨-, apart⟩ := List.forall_mem_cons.1 apart
    rw [places, List.pairwise_cons, List.forall_mem_cons,
      pairwise_placesAll_iff _ children hinside.ordered fun p hp q hq =>
        apart p hp q (List.mem_cons_of_mem _ hq)]
    rfl

theorem pairwise_placesAll_iff {S : Place → Place → Prop} (above : List Node) : (ns : List Node) →
    ∀ {left right : ℕ}, orderedAll left right ns = true →
    (∀ p ∈ placesAll above ns, ∀ q ∈ placesAll above ns, p.node.stop ≤ q.node.start → S p q) →
    ((placesAll above ns).Pairwise S ↔
      ∀ p ∈ placesAll above ns, ∀ q ∈ placesAll p.path p.node.children, S p q)
  | [], _, _, _, _ => by simp [placesAll]
  | n :: ns, left, right, hordered, apart => by
    obtain ⟨hn, hns⟩ := orderedAll_cons.1 hordered
    rw [placesAll, List.forall_mem_append] at apart
    obtain ⟨hfirst, hlater⟩ := apart
    have hsplit : ∀ p ∈ places above n, ∀ q ∈ placesAll above ns, S p q := fun p hp q hq => by
      refine hfirst p hp q (List.mem_append_right _ hq) ?_
      exact (hn.own.of_mem_places hp).le_right.trans (inside_of_mem_placesAll hns hq).left_le
    rw [placesAll, List.pairwise_append, List.forall_mem_append,
      pairwise_places_iff above n hn fun p hp q hq => hfirst p hp q (List.mem_append_left _ hq),
      pairwise_placesAll_iff above ns hns fun p hp q hq =>
        hlater p hp q (List.mem_append_right _ hq)]
    exact ⟨fun h => ⟨h.1, h.2.1⟩, fun h => ⟨h.1, h.2, hsplit⟩⟩
end

theorem marked_of_mem_places (h : n.marked = true) (hp : p ∈ places above n) :
    p.node.marked = true :=
  forall_mem_places (motive := fun p => p.node.marked = true)
    (fun _ hp c hc => (marked_iff.1 hp).2.2 c hc) above n h p hp

theorem shaped_of_mem_places {typed : Bool} (h : n.shaped typed = true) (hp : p ∈ places above n) :
    p.node.shaped typed = true :=
  forall_mem_places (motive := fun p => p.node.shaped typed = true)
    (fun _ hp c hc => (shaped_iff.1 hp).2 c hc) above n h p hp

end Node

/-- Every node of a file has the children of its kind. -/
theorem SourceFile.hasShape (file : SourceFile) {p : Node.Place}
    (hp : p ∈ Node.places [] file.root) :
    p.node.hasShape file.language.dialect.typed = true :=
  (Node.shaped_iff.1 (Node.shaped_of_mem_places file.isShaped hp)).1

/-- Nodes of a file other than its root are marked and cover some of its text. -/
theorem SourceFile.eq_root_or (file : SourceFile) {p : Node.Place}
    (hp : p ∈ Node.places [] file.root) :
    p.node = file.root ∨ p.node.marked = true ∧ Node.Inside 0 file.text.size p.node := by
  rw [Node.places_eq] at hp
  rcases List.mem_cons.1 hp with rfl | hp
  · exact .inl rfl
  · obtain ⟨n, hn, hbelow⟩ := Node.mem_placesAll.1 hp
    exact .inr ⟨Node.marked_of_mem_places (Node.markedAll_iff.1 file.isMarked n hn) hbelow,
      Node.inside_of_mem_placesAll file.isOrdered hp⟩

/-- The children of every node of a file are ordered. -/
theorem SourceFile.exists_orderedAll (file : SourceFile) {p : Node.Place}
    (hp : p ∈ Node.places [] file.root) :
    ∃ left right, Node.orderedAll left right p.node.children = true := by
  rcases file.eq_root_or hp with hroot | ⟨-, hinside⟩
  · exact ⟨0, file.text.size, hroot ▸ file.isOrdered⟩
  · exact ⟨p.node.start, p.node.stop, Node.ordered_eq p.node ▸ hinside.ordered⟩

theorem SourceFile.pairwise_places_iff (file : SourceFile) {S : Node.Place → Node.Place → Prop}
    (apart : ∀ p ∈ Node.places [] file.root, ∀ q ∈ Node.places [] file.root, p.node.stop ≤
      q.node.start → S p q) :
    (Node.places [] file.root).Pairwise S ↔
      ∀ p ∈ Node.places [] file.root, ∀ q ∈ Node.placesAll p.path p.node.children, S p q := by
  rw [Node.places_eq] at apart ⊢
  obtain ⟨-, apart⟩ := List.forall_mem_cons.1 apart
  rw [List.pairwise_cons, List.forall_mem_cons, Node.pairwise_placesAll_iff _ _ file.isOrdered
    fun p hp q hq => apart p hp q (List.mem_cons_of_mem _ hq)]
  rfl

namespace Location

theorem lt_iff {a b : Location} :
    a.lt b = true ↔ a.line < b.line ∨ a.line = b.line ∧ a.column < b.column := by
  simp [lt]

theorem lt_trans {a b c : Location} (h : a.lt b = true) (k : b.lt c = true) : a.lt c = true := by
  rw [lt_iff] at *
  omega

theorem lt_of_ne_of_not_lt {a b : Location} (hne : a ≠ b) (h : ¬ a.lt b = true) :
    b.lt a = true := by
  cases a
  cases b
  simp only [lt_iff, ne_eq, Location.mk.injEq] at *
  omega

theorem lt_next (l : Location) (c : Char) : l.lt (l.next c) = true := by
  rw [lt_iff, next]
  have := c.utf8Size_pos
  split_ifs
  · exact .inl (Nat.lt_succ_self _)
  · exact .inr ⟨rfl, by simpa using this⟩

theorem lt_foldl_next (l : Location) (c : Char) (cs : List Char) :
    l.lt ((c :: cs).foldl next l) = true := by
  induction cs generalizing l c with
  | nil => exact lt_next l c
  | cons d cs ih => exact lt_trans (lt_next l c) (ih (l.next c) d)

end Location

/-- A later offset is further on. -/
theorem SourceFile.locate_lt (file : SourceFile) {a b : ℕ} (h : a < b) (hb : b ≤ file.text.size) :
    (file.locate a).lt (file.locate b) = true := by
  have hsplit : (file.text.extract 0 b).toList =
      (file.text.extract 0 a).toList ++ (file.text.extract a b).toList := by
    rw [← Array.toList_append, Array.extract_append_extract]
    simp [h.le]
  rw [locate, locate, Location.after, Location.after, hsplit, List.foldl_append]
  cases hcs : (file.text.extract a b).toList with
  | nil =>
    have := congrArg List.length hcs
    simp at this
    omega
  | cons c cs => exact Location.lt_foldl_next _ c cs

/-- Nodes at different offsets stand at different places. -/
theorem SourceFile.location_ne (file : SourceFile) {m n : Node} (hm : m.start ≤ file.text.size)
    (hn : n.start ≤ file.text.size) (hne : m.start ≠ n.start) :
    file.location m ≠ file.location n := by
  intro heq
  have hirrefl : ¬ (file.location n).lt (file.location n) = true := by
    simp [Location.lt_iff]
  rcases hne.lt_or_gt with h | h
  · have hlt : (file.location m).lt (file.location n) = true := file.locate_lt h hn
    exact hirrefl (heq ▸ hlt)
  · have hlt : (file.location n).lt (file.location m) = true := file.locate_lt h hm
    exact hirrefl (heq ▸ hlt)

end QualityGate.Syntax
