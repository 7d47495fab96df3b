import QualityGate.Proofs.Syntax.Places
import QualityGate.Syntax.Literals

/-!
The places of nodes and of literals. In a file no node stands at two places. Of two literals one
starts before the other, even where the other is in one of its substitutions.
-/
namespace QualityGate.Syntax

namespace Node

variable {n c a root : Node} {above rest : List Node} {p q : Place} {left right : ℕ}

theorem sizeOf_child (h : c ∈ n.children) : sizeOf c < sizeOf n := by
  cases n with
  | mk kind role named start stop children =>
    have hlt : sizeOf c < sizeOf children := List.sizeOf_lt_of_mem h
    simp only [Node.mk.sizeOf_spec]
    omega

theorem sizeOf_le_of_mem_places (h : p ∈ places above n) : sizeOf p.node ≤ sizeOf n :=
  forall_mem_places (motive := fun p => sizeOf p.node ≤ sizeOf n)
    (fun _ hp _ hc => (sizeOf_child hc).le.trans hp) above n le_rfl p h

/-- No node is below itself. -/
theorem ne_of_below (h : q ∈ placesAll above n.children) : q.node ≠ n := by
  obtain ⟨c, hc, hq⟩ := mem_placesAll.1 h
  rintro heq
  have hlt := (sizeOf_le_of_mem_places hq).trans_lt (sizeOf_child hc)
  exact hlt.ne (congrArg sizeOf heq)

/-- The first of the ancestors is the parent. -/
theorem mem_children_of_above (hp : p ∈ places [] root) (h : p.above = a :: rest) :
    p.node ∈ a.children ∧ ⟨a, rest⟩ ∈ places [] root := by
  have hpasses : p.Passes ⟨a, rest⟩ := ⟨[p.node], by simp [Place.path, h]⟩
  refine ⟨?_, (hpasses.mem_places hp).1⟩
  refine forall_mem_places (motive := fun p => ∀ a rest, p.above = a :: rest →
    p.node ∈ a.children) ?_ [] root
    (by simp) p hp a rest h
  rintro p - c hc a rest heq
  obtain ⟨rfl, -⟩ := List.cons.inj heq
  exact hc

/-- A string or a template. The keyword `string` is none. -/
def isLiteral (n : Node) : Bool := n.named && (n.kind = .string || n.kind = .templateString)

theorem ne_program_of_isLiteral (h : n.isLiteral = true) : n.kind ≠ .program := by
  intro hprogram
  simp [isLiteral, hprogram] at h

/-- A literal starts before those in its substitutions. -/
theorem start_lt_of_isLiteral {typed : Bool} (hmarked : n.marked = true)
    (hshape : n.hasShape typed = true) (hinside : Inside left right n) (hn : n.isLiteral = true)
    (hq : q ∈ placesAll above n.children) (hliteral : q.node.isLiteral = true) :
    n.start < q.node.start := by
  simp only [isLiteral, Bool.and_eq_true, Bool.or_eq_true, decide_eq_true_eq] at hn hliteral
  rcases hn.2 with hkind | hkind
  · have hleaf : n.children = [] := by
      simpa [hasShape, hkind] using (Bool.and_eq_true_iff.1 hshape).2
    rw [hleaf] at hq
    exact absurd hq List.not_mem_nil
  · have hquote : n.children.head?.any (fun quote => !quote.named) = true := by
      simpa [hasShape, hkind] using (Bool.and_eq_true_iff.1 hshape).2
    obtain ⟨quote, hhead, hunnamed⟩ := (Option.any_eq_true _ _).1 hquote
    obtain ⟨later, hchildren⟩ := List.head?_eq_some_iff.1 hhead
    have hordered := ordered_eq n ▸ hinside.ordered
    rw [hchildren, orderedAll_cons] at hordered
    rw [hchildren, placesAll, List.mem_append] at hq
    rcases hq with hq | hq
    · have hleaf : quote.children = [] :=
        (marked_iff.1 ((marked_iff.1 hmarked).2.2 quote (by simp [hchildren]))).1
          (by simpa using hunnamed)
      obtain rfl : q = ⟨quote, above⟩ := by simpa [places_eq, hleaf, placesAll] using hq
      exact absurd hliteral.1 (by simpa using hunnamed)
    · calc n.start ≤ quote.start := hordered.1.left_le
        _ < quote.stop := hordered.1.start_lt
        _ ≤ q.node.start := (inside_of_mem_placesAll hordered.2 hq).left_le

end Node

open Node

namespace SourceFile

variable {file : SourceFile} {p q : Place}

theorem inside_of_ne_program (hp : p ∈ places [] file.root) (h : p.node.kind ≠ .program) :
    p.node.marked = true ∧ Inside 0 file.text.size p.node :=
  (file.eq_root_or hp).resolve_left fun hroot => h (hroot ▸ file.isProgram)

/-- Places differ in their nodes. -/
theorem pairwise_node_ne (file : SourceFile) :
    (places [] file.root).Pairwise fun p q => p.node.kind ≠ .program → p.node ≠ q.node := by
  refine (file.pairwise_places_iff fun p hp q hq happart hkind heq => ?_).2 fun p _ q hq _ =>
    (ne_of_below hq).symm
  have hlt := (inside_of_ne_program hp hkind).2.start_lt
  exact absurd (hlt.trans_le happart) (heq ▸ lt_irrefl _)

theorem eq_of_node_eq (hp : p ∈ places [] file.root) (hq : q ∈ places [] file.root)
    (hkind : p.node.kind ≠ .program) (h : p.node = q.node) : p = q := by
  by_contra hne
  have : Std.Symm fun p q : Place => p.node.kind ≠ .program → p.node ≠ q.node :=
    ⟨fun p q hpq hq heq => hpq (heq ▸ hq) heq.symm⟩
  exact (pairwise_node_ne file).forall hp hq hne hkind h

/-- Of two literals at different places one starts before the other. -/
theorem pairwise_literal_start_ne (file : SourceFile) : (places [] file.root).Pairwise fun p q =>
    p.node.isLiteral = true → q.node.isLiteral = true → p.node.start ≠ q.node.start := by
  refine (file.pairwise_places_iff fun p hp q hq happart hliteral _ => ?_).2
    fun p hp q hq hliteral hbelow => ?_
  · exact ((inside_of_ne_program hp (ne_program_of_isLiteral hliteral)).2.start_lt.trans_le
      happart).ne
  · obtain ⟨hmarked, hinside⟩ := inside_of_ne_program hp (ne_program_of_isLiteral hliteral)
    exact (start_lt_of_isLiteral hmarked (file.hasShape hp) hinside hliteral hq hbelow).ne

/-- No two literals start at one place of the text. -/
theorem eq_of_literal_location_eq (hp : p ∈ places [] file.root) (hq : q ∈ places [] file.root)
    (hliteral : p.node.isLiteral = true) (hother : q.node.isLiteral = true)
    (h : file.location p.node = file.location q.node) : p = q := by
  by_contra hne
  have : Std.Symm fun p q : Place =>
      p.node.isLiteral = true → q.node.isLiteral = true → p.node.start ≠ q.node.start :=
    ⟨fun p q hpq hq hp heq => hpq hp hq heq.symm⟩
  have hstart := (pairwise_literal_start_ne file).forall hp hq hne hliteral hother
  have hsize {p : Place} (hp : p ∈ places [] file.root) (hliteral : p.node.isLiteral = true) :
      p.node.start ≤ file.text.size := by
    have hinside := (inside_of_ne_program hp (ne_program_of_isLiteral hliteral)).2
    exact hinside.start_lt.le.trans hinside.le_right
  exact file.location_ne (hsize hp hliteral) (hsize hq hother) hstart h

end SourceFile

end QualityGate.Syntax
