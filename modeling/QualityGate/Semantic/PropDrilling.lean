import QualityGate.Settings
import QualityGate.Violation
import QualityGate.Syntax.Literals
import QualityGate.Text.Search
import QualityGate.Syntax.Node.Cursor

/-!
Components that hand their props on through level after level of markup.
-/
namespace QualityGate.PropDrilling

open Syntax

def propsNames : List String := ["props", "params"]

def mentionsProps (text : String) : Bool :=
  propsNames.any fun name => Text.contains name.toList text.toList

/-- Whether a parameter of the function has one of the usual names of props. -/
def takesProps (file : SourceFile) (function : Node) : Bool :=
  match function.child? .parameter, function.child? .parameters with
  | some parameter, _ => propsNames.contains (file.textOf parameter)
  | none, some parameters => parameters.parts.any fun p =>
      ((p.child? .pattern).map fun q => propsNames.contains (file.textOf q)) == some true
  | none, none => false

/-- Spread props, and values that mention props. -/
def isForwarding (file : SourceFile) (attr : Node) : Bool :=
  if attr.kind = .jsxAttribute then
    match (file.nameAndValue attr).2 with
    | some value => value.kind = .jsxExpression
        && ((value.parts.head?.map fun e => mentionsProps (file.textOf e)) == some true)
    | none => false
  else attr.kind = .jsxExpression && mentionsProps (file.textOf attr)

def forwarded (file : SourceFile) (tag : Node) : Nat :=
  ((SourceFile.attributes tag).filter (isForwarding file)).length

/-- The tag of an element. -/
def tag? (n : Node) : Option Node :=
  match n.kind with
  | .jsxElement => n.child? .openTag
  | .jsxSelfClosingElement => some n
  | _ => none

def isComponent (file : SourceFile) (n : Node) : Bool :=
  (n.kind = .arrowFunction || (n.kind = .functionDeclaration && n.has .name)) && takesProps file n

/-- Keeps the highest level of each place, in the order of places. -/
def raise (entry : Location × Nat) : List (Location × Nat) → List (Location × Nat)
  | [] => [entry]
  | (place, level) :: rest =>
    if entry.1 = place then (place, max level entry.2) :: rest
    else if entry.1.lt place then entry :: (place, level) :: rest
    else (place, level) :: raise entry rest

/-- What is to be visited below a node, with the count of the way down to the node. -/
def childrenAt (n : Node) (level : Nat) : List (Node × Nat) :=
  (n.children.filter (·.named)).map (·, level)

noncomputable def size : List (Node × Nat) → Nat
  | [] => 0
  | (n, _) :: pending => sizeOf n + size pending

theorem size_append (ps qs : List (Node × Nat)) : size (ps ++ qs) = size ps + size qs := by
  induction ps with
  | nil => exact (Nat.zero_add _).symm
  | cons e ps ih => rw [List.cons_append, size, size, ih, Nat.add_assoc]

theorem size_childrenAt_lt (n : Node) (level : Nat) : size (childrenAt n level) < sizeOf n := by
  have hkept (ns : List Node) : size ((ns.filter (·.named)).map (·, level)) ≤ sizeOf ns := by
    induction ns with
    | nil => exact Nat.zero_le _
    | cons n ns ih =>
      rw [List.cons.sizeOf_spec, List.filter_cons]
      split
      · rw [List.map_cons, size]
        omega
      · omega
  cases n with
  | mk kind role named start stop children =>
    refine Nat.lt_of_le_of_lt (hkept children) ?_
    rw [Node.mk.sizeOf_spec]
    omega

def keep (file : SourceFile) (max level : Nat) (n : Node) (kept : List (Location × Nat)) :
    List (Location × Nat) :=
  match tag? n with
  | some tag => if level > max then raise (file.location tag, level) kept else kept
  | none => kept

/-- Visits the nodes that wait, each with the number of attributes that forward props on the
elements above it, and whatever is below them. -/
def survey (file : SourceFile) (max : Nat) :
    List (Node × Nat) → List (Location × Nat) → List (Location × Nat)
  | [], kept => kept
  | (n, above) :: pending, kept =>
    let level := above + (tag? n).elim 0 (forwarded file)
    survey file max (childrenAt n level ++ pending) (keep file max level n kept)
termination_by pending => size pending
decreasing_by
  rw [size_append, size]
  exact Nat.add_lt_add_right (size_childrenAt_lt n _) _

/-- The highest level of each tag with more than the limit, in the order of places. -/
def levels (file : SourceFile) (max : Nat) : List (Location × Nat) :=
  ((file.root.preorder.filter (isComponent file)).filterMap (·.child? .body)).foldl
    (fun kept body => survey file max [(body, 0)] kept) []

def check (settings : Settings) (file : SourceFile) : List Violation :=
  let max := settings.thresholds.maxPropDrilling
  (levels file max).map fun (place, level) =>
    (Violation.warning .noPropDrilling ("Props being passed through " ++ toString level
      ++ " component levels (max " ++ toString max ++ ")")).located place

end QualityGate.PropDrilling
