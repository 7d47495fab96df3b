import QualityGate.Syntax.Node.Cursor

/-!
What walks with a cursor meet. Each round of a walk visits the first of the places that lie ahead
and goes on to the others; the tally of a walk that counts is a function of the path from the root
down to the cursor. So both walks come to their end, with what a recursion over the tree collects.
-/
namespace QualityGate.Syntax.Node

namespace Cursor

theorem fold_eq {α : Type} (visit : α → Node → α) (c : Cursor) (a : α) :
    c.fold visit a = (c.ahead.map (·.node)).foldl visit a := by
  fun_induction fold visit c a with
  | case1 c a child hchild ih =>
    rw [ih, ahead_of_child hchild]
    rfl
  | case2 c a hleaf next hnext ih =>
    rw [ih, ahead_of_leaf hleaf, behind_of_climb hnext]
    rfl
  | case3 c a hleaf hnone =>
    rw [ahead_of_leaf hleaf, behind_of_climb_none hnone]
    rfl

end Cursor

theorem preorder_eq (n : Node) : n.preorder = (places [] n).map (·.node) := by
  simp [preorder, Cursor.fold_eq, Cursor.ahead_top]

theorem mem_preorder {m n : Node} : m ∈ n.preorder ↔ ∃ p ∈ places [] n, p.node = m := by
  rw [preorder_eq, List.mem_map]

variable {counts : Kind → Bool}

/-- The tally at the end of a path from the root, the last node of the path first. -/
def Tally.ofPath (counts : Kind → Bool) (path : List Node) : Tally :=
  ⟨path.countP (counts ·.kind), path.map (counts ·.kind)⟩

theorem Tally.enter_ofPath (path : List Node) (n : Node) :
    (ofPath counts path).enter (counts n.kind) = ofPath counts (n :: path) := by
  cases h : counts n.kind <;> simp [ofPath, enter, h]

theorem Tally.leave?_ofPath (path : List Node) (n : Node) :
    (ofPath counts (n :: path)).leave? = some (ofPath counts path) := by
  cases h : counts n.kind <;> simp [ofPath, leave?, h]

namespace Cursor

/-- On the way up the tally stays that of the path. -/
theorem leave?_ofPath : (c : Cursor) → c.leave? (.ofPath counts (c.node :: c.above)) =
    some ((c.climb?.map fun next => Tally.ofPath counts next.above).getD .zero, c.climb?)
  | top root => by
    simp only [leave?, node, above, Tally.leave?_ofPath]
    rfl
  | inside parent n [] => by
    simp only [leave?, node, Tally.leave?_ofPath, Option.bind_some, nextSibling?, climb?]
    exact leave?_ofPath parent
  | inside parent n (next :: later) => by
    simp [leave?, node, above, Tally.leave?_ofPath, nextSibling?, climb?]

end Cursor

def Place.level (counts : Kind → Bool) (p : Place) : Nat := p.above.countP (counts ·.kind)

variable {α : Type} (report : Nat → Node → List α)

theorem Cursor.above_of_child {c d : Cursor} (h : c.firstChild? = some d) :
    d.above = c.node :: c.above := by
  unfold firstChild? at h
  split at h
  · contradiction
  · cases h
    rfl

/-- The tally is back at zero in the end, and on the way it always was that of the path. -/
theorem Cursor.survey?_eq {c : Cursor} {t : Tally} (ht : t = .ofPath counts c.above)
    (found : Array α) :
    (c.survey? counts report t found).map (fun (t, found) => (t, found.toList)) =
      some (.zero, found.toList ++ c.ahead.flatMap fun p => report (p.level counts) p.node) := by
  have hlevel (c : Cursor) : (Tally.ofPath counts c.above).count = c.place.level counts := rfl
  fun_induction Cursor.survey? counts report c t found with subst ht
  | case1 c t found child hchild ih =>
    rw [ih (by rw [Tally.enter_ofPath, above_of_child hchild]), ahead_of_child hchild]
    simp [hlevel, place]
  | case2 c t found hleaf hstuck =>
    simp [Tally.enter_ofPath, leave?_ofPath] at hstuck
  | case3 c t found hleaf left hleft =>
    rw [Tally.enter_ofPath, leave?_ofPath, Option.some_inj, Prod.mk.injEq] at hleft
    obtain ⟨rfl, hnone⟩ := hleft
    rw [ahead_of_leaf hleaf, behind_of_climb_none hnone]
    simp [hnone, hlevel, place]
  | case4 c t found hleaf left next hnext ih =>
    rw [Tally.enter_ofPath, leave?_ofPath, Option.some_inj, Prod.mk.injEq] at hnext
    obtain ⟨rfl, hclimb⟩ := hnext
    rw [ih (by rw [hclimb]; rfl), ahead_of_leaf hleaf, behind_of_climb hclimb]
    simp [hlevel, place]

/-- A walk that counts loses no count. -/
theorem survey?_eq (n : Node) : n.survey? counts report =
    some (.zero, (places [] n).flatMap fun p => report (p.level counts) p.node) := by
  rw [← Cursor.ahead_top]
  exact Cursor.survey?_eq report rfl #[]

end QualityGate.Syntax.Node
