import QualityGate.Syntax.Node

/-!
Cursors. A cursor stands at a node of a tree and moves to a first child, a next sibling or a parent,
but never out of the tree that it started with. Two walks visit every node of a tree by such moves:
a plain one, and one that counts certain nodes on the path from the root down to the cursor.
-/
namespace QualityGate.Syntax.Node

inductive Cursor
  | top (root : Node)
  /-- At a child of the node of `parent`, with the siblings after it. -/
  | inside (parent : Cursor) (node : Node) (later : List Node)

namespace Cursor

def node : Cursor → Node
  | top root => root
  | inside _ node _ => node

def firstChild? (c : Cursor) : Option Cursor :=
  match c.node.children with
  | [] => none
  | child :: later => some (inside c child later)

def nextSibling? : Cursor → Option Cursor
  | inside parent _ (next :: later) => some (inside parent next later)
  | _ => none

/-- Out of a subtree that was visited: up from node to node until one has a next sibling. The node
where the cursor started is never left. -/
def climb? : Cursor → Option Cursor
  | top _ => none
  | inside parent node later =>
    match (inside parent node later).nextSibling? with
    | some next => some next
    | none => parent.climb?

/-- The ancestors of the node, its parent first. -/
def above : Cursor → List Node
  | top _ => []
  | inside parent _ _ => parent.node :: parent.above

def place (c : Cursor) : Place := ⟨c.node, c.above⟩

/-- The places after those of the subtree. -/
def behind : Cursor → List Place
  | top _ => []
  | inside parent _ later => placesAll (parent.node :: parent.above) later ++ parent.behind

/-- The places from the cursor on, parents before children. -/
def ahead (c : Cursor) : List Place := places c.above c.node ++ c.behind

theorem ahead_top (root : Node) : (top root).ahead = places [] root := List.append_nil _

theorem ahead_of_child {c d : Cursor} (h : c.firstChild? = some d) :
    c.ahead = c.place :: d.ahead := by
  unfold firstChild? at h
  split at h
  · contradiction
  · next child later hc =>
    cases h
    rw [ahead, places_eq, hc, placesAll]
    simp only [ahead, behind, place, above, List.cons_append, List.append_assoc]
    rfl

theorem ahead_of_leaf {c : Cursor} (h : c.firstChild? = none) : c.ahead = c.place :: c.behind := by
  unfold firstChild? at h
  split at h
  · next hc =>
    rw [ahead, places_eq, hc, placesAll]
    rfl
  · contradiction

theorem behind_of_climb : {c d : Cursor} → c.climb? = some d → c.behind = d.ahead
  | inside parent node [], d, h => by
    simpa [behind, placesAll]
      using behind_of_climb (c := parent) (by simpa [climb?, nextSibling?] using h)
  | inside parent node (next :: later), d, h => by
    cases (show inside parent next later = d by simpa [climb?, nextSibling?] using h)
    simp [behind, ahead, Cursor.node, above, placesAll]

theorem behind_of_climb_none : {c : Cursor} → c.climb? = none → c.behind = []
  | top _, _ => rfl
  | inside parent node [], h => by
    simpa [behind, placesAll]
      using behind_of_climb_none (c := parent) (by simpa [climb?, nextSibling?] using h)
  | inside parent node (next :: later), h => by simp [climb?, nextSibling?] at h

/-- Visits the node of the cursor and whatever lies ahead. -/
def fold {α : Type} (visit : α → Node → α) (c : Cursor) (a : α) : α :=
  match _child : c.firstChild? with
  | some child => fold visit child (visit a c.node)
  | none =>
    match _next : c.climb? with
    | some next => fold visit next (visit a c.node)
    | none => visit a c.node
termination_by c.ahead.length
decreasing_by
  · simp [ahead_of_child _child]
  · simp [ahead_of_leaf _child, behind_of_climb _next]

end Cursor

/-- The node and everything below it, as a walk meets them. -/
def preorder (n : Node) : List Node := ((Cursor.top n).fold Array.push #[]).toList

/-- The number of counted nodes from the root down to the cursor, and for each node there, the
latest first, whether it is one of them. -/
structure Tally where
  count : Nat
  marks : List Bool
  deriving DecidableEq, Repr

namespace Tally

def zero : Tally := ⟨0, []⟩

def enter (t : Tally) (counted : Bool) : Tally :=
  ⟨if counted then t.count + 1 else t.count, counted :: t.marks⟩

/-- Takes the latest mark back. A count of zero cannot be lowered. -/
def leave? : Tally → Option Tally
  | ⟨0, true :: _⟩ => none
  | ⟨count + 1, true :: marks⟩ => some ⟨count, marks⟩
  | ⟨count, false :: marks⟩ => some ⟨count, marks⟩
  | ⟨count, []⟩ => some ⟨count, []⟩

end Tally

namespace Cursor

/-- `climb?`, leaving one node after the other. -/
def leave? : Cursor → Tally → Option (Tally × Option Cursor)
  | top _, t => t.leave?.map (·, none)
  | inside parent node later, t =>
    t.leave?.bind fun t =>
      match (inside parent node later).nextSibling? with
      | some next => some (t, some next)
      | none => parent.leave? t

theorem climb_of_leave : {c : Cursor} → {t u : Tally} → {next : Option Cursor} →
    c.leave? t = some (u, next) → c.climb? = next
  | top _, t, u, next, h => by
    obtain ⟨_, -, he⟩ := Option.map_eq_some_iff.1 h
    exact congrArg Prod.snd he
  | inside parent node later, t, u, next, h => by
    obtain ⟨v, -, h⟩ := Option.bind_eq_some_iff.1 h
    unfold climb?
    split at h
    · exact congrArg Prod.snd (Option.some.inj h)
    · exact climb_of_leave h

/-- Collects what `report` says of the node of the cursor and of whatever lies ahead, given the
number of counted nodes above each of them. -/
def survey? {α : Type} (counts : Kind → Bool) (report : Nat → Node → List α)
    (c : Cursor) (t : Tally) (found : Array α) : Option (Tally × Array α) :=
  match _child : c.firstChild? with
  | some child =>
    survey? counts report child (t.enter (counts c.node.kind)) (found ++ report t.count c.node)
  | none =>
    match _next : c.leave? (t.enter (counts c.node.kind)) with
    | none => none
    | some (t', none) => some (t', found ++ report t.count c.node)
    | some (t', some next) => survey? counts report next t' (found ++ report t.count c.node)
termination_by c.ahead.length
decreasing_by
  · simp [ahead_of_child _child]
  · simp [ahead_of_leaf _child, behind_of_climb (climb_of_leave _next)]

end Cursor

/-- The counts after a walk through the whole tree, and all that it collects; nothing where a count
would fall below zero. -/
def survey? {α : Type} (counts : Kind → Bool) (report : Nat → Node → List α) (n : Node) :
    Option (Tally × List α) :=
  ((Cursor.top n).survey? counts report .zero #[]).map fun (t, found) => (t, found.toList)

end QualityGate.Syntax.Node
