import QualityGate.Syntax.Node

/-!
Positions in a tree. A position is a list of child numbers, to be followed from the root, and stands
before all positions below it. The places of a tree are those of its positions, in their order.
-/
namespace QualityGate.Syntax.Node

/-- The place that a position leads to: the node, and the nodes that were passed on the way. -/
def placeAt? (above : List Node) (n : Node) : List Nat → Option Place
  | [] => some ⟨n, above⟩
  | i :: position => n.children[i]?.bind fun child => placeAt? (n :: above) child position

mutual
/-- The positions of the node and of everything below it, in the order of `places`. -/
def positions : Node → List (List Nat)
  | ⟨_, _, _, _, _, children⟩ => [] :: positionsFrom 0 children

def positionsFrom (i : Nat) : List Node → List (List Nat)
  | [] => []
  | n :: ns => (positions n).map (i :: ·) ++ positionsFrom (i + 1) ns
end

mutual
theorem map_placeAt?_positions (above : List Node) : (n : Node) →
    (positions n).map (placeAt? above n) = (places above n).map some
  | ⟨kind, role, named, start, stop, children⟩ => by
    rw [positions, places, List.map_cons, List.map_cons]
    congr 1
    exact map_placeAt?_positionsFrom above _ 0 children (List.drop_zero ..)

/-- The children from the `i`th on. -/
theorem map_placeAt?_positionsFrom (above : List Node) (n : Node) (i : Nat) : (ns : List Node) →
    n.children.drop i = ns →
    (positionsFrom i ns).map (placeAt? above n) = (placesAll (n :: above) ns).map some
  | [], _ => rfl
  | child :: later, h => by
    have hchild : n.children[i]? = some child := by
      rw [← Nat.add_zero i, ← List.getElem?_drop, h]
      rfl
    have hlater : n.children.drop (i + 1) = later := by
      rw [← List.drop_drop, h]
      rfl
    have hbelow (position : List Nat) :
        placeAt? above n (i :: position) = placeAt? (n :: above) child position := by
      rw [placeAt?, hchild, Option.bind_some]
    rw [positionsFrom, placesAll, List.map_append, List.map_append, List.map_map,
      map_placeAt?_positionsFrom above n (i + 1) later hlater,
      ← map_placeAt?_positions (n :: above) child]
    exact congrArg (· ++ _) (List.map_congr_left fun q _ => hbelow q)
end

theorem head_of_mem_positionsFrom {i : Nat} {ns : List Node} {position : List Nat}
    (h : position ∈ positionsFrom i ns) : ∃ j rest, position = j :: rest ∧ i ≤ j := by
  induction ns generalizing i with
  | nil => simp [positionsFrom] at h
  | cons n ns ih =>
    rcases List.mem_append.1 h with h | h
    · obtain ⟨rest, -, rfl⟩ := List.mem_map.1 h
      exact ⟨i, rest, rfl, Nat.le_refl i⟩
    · obtain ⟨j, rest, rfl, hj⟩ := ih h
      exact ⟨j, rest, rfl, Nat.le_of_succ_le hj⟩

mutual
/-- A position comes before all positions below it and before those of later siblings. -/
theorem pairwise_positions : (n : Node) → (positions n).Pairwise (· < ·)
  | ⟨kind, role, named, start, stop, children⟩ => by
    rw [positions, List.pairwise_cons]
    refine ⟨fun position h => ?_, pairwise_positionsFrom 0 children⟩
    obtain ⟨j, rest, rfl, -⟩ := head_of_mem_positionsFrom h
    exact List.nil_lt_cons j rest

theorem pairwise_positionsFrom (i : Nat) : (ns : List Node) → (positionsFrom i ns).Pairwise (· < ·)
  | [] => .nil
  | n :: ns => by
    rw [positionsFrom, List.pairwise_append, List.pairwise_map]
    refine ⟨?_, pairwise_positionsFrom (i + 1) ns, ?_⟩
    · exact (pairwise_positions n).imp fun h => List.cons_lt_cons_self.2 h
    · intro position hp later hl
      obtain ⟨rest, -, rfl⟩ := List.mem_map.1 hp
      obtain ⟨j, rest', rfl, hj⟩ := head_of_mem_positionsFrom hl
      exact List.cons_lt_cons_iff.2 (.inl hj)
end

end QualityGate.Syntax.Node
