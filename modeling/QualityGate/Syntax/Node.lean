import QualityGate.Syntax.Kind

/-!
Syntax trees. A node covers the characters from `start` up to `stop` of its source; keywords and
punctuation are nodes too, told apart by `named`.
-/
namespace QualityGate.Syntax

structure Node where
  kind : Kind
  role : Option Role
  named : Bool
  start : Nat
  stop : Nat
  children : List Node
  deriving Inhabited

namespace Node

def leaf (kind : Kind) (named : Bool) (start stop : Nat) : Node :=
  ⟨kind, none, named, start, stop, []⟩

/-- A named node over `children`, from the start of the first to the stop of the last. -/
def branch (kind : Kind) (children : List Node) : Node :=
  ⟨kind, none, true, (children.head?.map start).getD 0,
    (children.getLast?.map stop).getD 0, children⟩

def withRole (role : Role) (n : Node) : Node := { n with role := some role }

def withKind (kind : Kind) (n : Node) : Node := { n with kind }

/-- Named children without comments. -/
def parts (n : Node) : List Node :=
  n.children.filter fun c => c.named && c.kind != .comment

def child? (n : Node) (role : Role) : Option Node :=
  n.children.find? fun c => c.role == some role

def has (n : Node) (role : Role) : Bool := (n.child? role).isSome

/-- Skips any number of wrapping parentheses. -/
def unwrapped (n : Node) : Node :=
  go n.stop n
where
  go : Nat → Node → Node
    | 0, n => n
    | fuel + 1, n =>
      if n.kind = .parenthesizedExpression then
        match n.parts with
        | inner :: _ => go fuel inner
        | [] => n
      else n

/-- A node together with its ancestors, the parent first. -/
structure Place where
  node : Node
  above : List Node

mutual
/-- The node and everything below it, parents before children, each with its ancestors. -/
def places (above : List Node) : Node → List Place
  | ⟨kind, role, named, start, stop, children⟩ =>
    ⟨⟨kind, role, named, start, stop, children⟩, above⟩ ::
      placesAll (⟨kind, role, named, start, stop, children⟩ :: above) children

def placesAll (above : List Node) : List Node → List Place
  | [] => []
  | n :: ns => places above n ++ placesAll above ns
end

theorem places_eq (above : List Node) (n : Node) :
    places above n = ⟨n, above⟩ :: placesAll (n :: above) n.children := by
  cases n
  rfl

mutual
def count : Node → Nat
  | ⟨_, _, _, _, _, children⟩ => 1 + countAll children

def countAll : List Node → Nat
  | [] => 0
  | n :: ns => count n + countAll ns
end

theorem count_eq (n : Node) : count n = 1 + countAll n.children := by
  cases n
  rfl

theorem countAll_append (ms ns : List Node) : countAll (ms ++ ns) = countAll ms + countAll ns := by
  induction ms with
  | nil => exact (Nat.zero_add _).symm
  | cons n ms ih => rw [List.cons_append, countAll, countAll, ih, Nat.add_assoc]

theorem countAll_filter_le (p : Node → Bool) (ns : List Node) :
    countAll (ns.filter p) ≤ countAll ns := by
  induction ns with
  | nil => exact Nat.le_refl _
  | cons n ns ih =>
    rw [List.filter_cons]
    split <;> simp only [countAll] <;> omega

theorem countAll_find?_le (p : Node → Bool) (ns : List Node) :
    countAll (ns.find? p).toList ≤ countAll ns := by
  induction ns with
  | nil => exact Nat.le_refl _
  | cons n ns ih =>
    rw [List.find?_cons]
    split
    · simp only [Option.toList, countAll]
      omega
    · rw [countAll]
      omega

namespace Place

def parent? (p : Place) : Option Node := p.above.head?

/-- The ancestors from the first one that is not a pair of parentheses. -/
def enclosing (p : Place) : List Node :=
  p.above.dropWhile (·.kind = .parenthesizedExpression)

end Place

mutual
/-- Every node below the root covers some text, lies inside its parent and after its left
neighbour. -/
def ordered : Node → Bool
  | ⟨_, _, _, start, stop, children⟩ => orderedAll start stop children

def orderedAll (left right : Nat) : List Node → Bool
  | [] => left ≤ right
  | n :: ns =>
    left ≤ n.start && n.start < n.stop && n.stop ≤ right && n.ordered && orderedAll n.stop right ns
end

/-- Whether a node of the kind may start with `first`: elements start with their tag, tags with a
bracket. -/
def startsWith (first : Option Node) : Kind → Bool
  | .jsxElement => first.any fun tag => tag.role = some .openTag && tag.kind = .jsxOpeningElement
  | .jsxOpeningElement | .jsxSelfClosingElement => first.any fun bracket => !bracket.named
  | _ => true

mutual
/-- Keywords and punctuation have nothing below them, and markup starts as it should. -/
def marked : Node → Bool
  | ⟨kind, _, named, _, _, children⟩ =>
    (named || children.isEmpty) && startsWith children.head? kind && markedAll children

def markedAll : List Node → Bool
  | [] => true
  | n :: ns => n.marked && markedAll ns
end

/-- Whether a node has the children of its kind, where that is of account: attributes stand in tags
that have a name, and have a name themselves and at most one value; strings are tokens, templates
start with one, braces hold at most one expression, and what follows an expression in its
parentheses is a type. Parameters stand in a list of their own, and where types are written, they
are patterns with what belongs to them. -/
def hasShape (typed : Bool) (n : Node) : Bool :=
  (n.role != some .parameters || n.kind = .formalParameters) &&
    (n.kind.isTag && n.has .name || n.children.all fun c => c.kind != .jsxAttribute) &&
    match n.kind with
    | .string => n.children.isEmpty
    | .templateString => n.children.head?.any fun quote => !quote.named
    | .jsxAttribute => n.role != some .name && isAttributeShape n.parts
    | .jsxExpression => n.parts.length ≤ 1
    | .parenthesizedExpression => n.parts.tail.all fun type => type.kind = .other
    | .formalParameters => !typed || n.parts.all fun p => p.kind.isParameter && p.has .pattern
    | _ => true
where
  isAttributeShape : List Node → Bool
    | [name] => name.kind != .jsxExpression
    | [name, value] => name.kind != .jsxExpression && value.kind.isAttributeValue
    | _ => false

mutual
def shaped (typed : Bool) : Node → Bool
  | ⟨kind, role, named, start, stop, children⟩ =>
    hasShape typed ⟨kind, role, named, start, stop, children⟩ && shapedAll typed children

def shapedAll (typed : Bool) : List Node → Bool
  | [] => true
  | n :: ns => n.shaped typed && shapedAll typed ns
end

end Node
end QualityGate.Syntax
