import QualityGate.Proofs.Syntax.Places
import QualityGate.Proofs.Syntax.Cursor
import Mathlib.Order.Monotone.Defs

/-!
Parentheses around an expression of a file. They are nodes of their own in its tree. The expression
moves, with all that is below it; what is around it reaches further, and what is behind it moves
more.
-/
namespace QualityGate.Syntax

namespace Kind

/-- Functions that are expressions, and object literals. -/
def isOperand : Kind → Bool
  | functionExpression | arrowFunction | generatorFunction | object => true
  | _ => false

/-- Only operands become something else, namely parentheses. -/
def Becomes (k l : Kind) : Prop := l = k ∨ k.isOperand = true ∧ l = .parenthesizedExpression

variable {k l : Kind}

theorem Becomes.eq (h : Becomes k l) (hk : k.isOperand = false) : l = k :=
  h.resolve_right fun ⟨hk', _⟩ => by simp [hk] at hk'

/-- What is neither an operand nor parentheses stays what it is, and nothing else becomes it. -/
theorem Becomes.eq_iff (h : Becomes k l) (kind : Kind)
    (hkind : (kind.isOperand || kind = .parenthesizedExpression) = false) :
    l = kind ↔ k = kind := by
  rcases h with rfl | ⟨hk, rfl⟩
  · rfl
  · refine iff_of_false ?_ ?_ <;> rintro rfl <;> simp_all

theorem Becomes.bne_eq (h : Becomes k l) (kind : Kind)
    (hkind : (kind.isOperand || kind = .parenthesizedExpression) = false) :
    (l != kind) = (k != kind) := by
  rw [Bool.eq_iff_iff, bne_iff_ne, bne_iff_ne, ne_eq, ne_eq, h.eq_iff kind hkind]

theorem isOperand_of_isAttributeValue (h : k.isAttributeValue = true) : k.isOperand = false := by
  cases k <;> first | rfl | contradiction

theorem isOperand_of_isParameter (h : k.isParameter = true) : k.isOperand = false := by
  cases k <;> first | rfl | contradiction

end Kind

namespace Node

variable {e m n : Node} {ns : List Node} {left right : ℕ} {typed : Bool}

mutual
def decEq : (m n : Node) → Decidable (m = n)
  | ⟨kind, role, named, start, stop, children⟩, ⟨kind', role', named', start', stop', children'⟩ =>
    match decEqAll children children' with
    | .isTrue h => decidable_of_iff
        (kind = kind' ∧ role = role' ∧ named = named' ∧ start = start' ∧ stop = stop') (by simp [h])
    | .isFalse h => .isFalse (by simp [h])

def decEqAll : (ms ns : List Node) → Decidable (ms = ns)
  | [], [] => .isTrue rfl
  | [], _ :: _ => .isFalse nofun
  | _ :: _, [] => .isFalse nofun
  | m :: ms, n :: ns =>
    match decEq m n, decEqAll ms ns with
    | .isTrue h, .isTrue hs => .isTrue (by rw [h, hs])
    | .isFalse h, _ => .isFalse (by simp [h])
    | _, .isFalse hs => .isFalse (by simp [hs])
end

instance : DecidableEq Node := decEq

theorem self_mem_preorder (n : Node) : n ∈ n.preorder :=
  mem_preorder.2 ⟨_, self_mem_places [] n, rfl⟩

/-- What is below a node is below one of its children. -/
theorem mem_preorder_iff : m ∈ n.preorder ↔ m = n ∨ ∃ c ∈ n.children, m ∈ c.preorder := by
  rw [mem_preorder, places_eq, List.exists_mem_cons_iff]
  refine or_congr eq_comm ⟨?_, ?_⟩
  · rintro ⟨p, hp, rfl⟩
    obtain ⟨c, hc, hp⟩ := mem_placesAll.1 hp
    obtain ⟨q, hq, rfl⟩ := mem_places_iff.1 hp
    exact ⟨c, hc, mem_preorder.2 ⟨q, hq, rfl⟩⟩
  · rintro ⟨c, hc, hm⟩
    obtain ⟨q, hq, rfl⟩ := mem_preorder.1 hm
    exact ⟨_, mem_placesAll.2 ⟨c, hc, mem_places_iff.2 ⟨q, hq, rfl⟩⟩, rfl⟩

theorem child_mem_preorder {c root : Node} (hn : n ∈ root.preorder) (hc : c ∈ n.children) :
    c ∈ root.preorder := by
  obtain ⟨p, hp, rfl⟩ := mem_preorder.1 hn
  exact mem_preorder.2 ⟨_, child_mem_places hc [] root hp, rfl⟩

theorem Inside.of_mem_preorder (h : Inside left right n) (hm : m ∈ n.preorder) :
    Inside left right m := by
  obtain ⟨p, hp, rfl⟩ := mem_preorder.1 hm
  exact h.of_mem_places hp

mutual
/-- The tree with its offsets moved, but for the nodes that make place for others. -/
def relocate (move : ℕ → ℕ) (put? : Node → Option Node) : Node → Node
  | ⟨kind, role, named, start, stop, children⟩ =>
    (put? ⟨kind, role, named, start, stop, children⟩).getD
      ⟨kind, role, named, move start, move stop, relocateAll move put? children⟩

def relocateAll (move : ℕ → ℕ) (put? : Node → Option Node) : List Node → List Node
  | [] => []
  | n :: ns => relocate move put? n :: relocateAll move put? ns
end

section
variable {move : ℕ → ℕ} {put? : Node → Option Node}

theorem relocateAll_eq_map : relocateAll move put? ns = ns.map (relocate move put?) := by
  induction ns with
  | nil => rfl
  | cons n ns ih => rw [relocateAll, ih, List.map_cons]

theorem relocate_eq (n : Node) : relocate move put? n = (put? n).getD
    ⟨n.kind, n.role, n.named, move n.start, move n.stop, n.children.map (relocate move put?)⟩ := by
  cases n
  rw [relocate, relocateAll_eq_map]

/-- What fits where a node was. -/
structure Fits (move : ℕ → ℕ) (n m : Node) : Prop where
  role : m.role = n.role
  named : m.named = n.named
  kind : n.kind.Becomes m.kind
  inside : Inside n.start n.stop n → Inside (move n.start) (move n.stop) m
  marked : n.marked = true → m.marked = true
  shaped (typed : Bool) : n.shaped typed = true → m.shaped typed = true
  pattern : n.kind.isParameter = true → m.has .pattern = n.has .pattern

theorem role_relocate (h : ∀ m, put? n = some m → Fits move n m) :
    (relocate move put? n).role = n.role := by
  rw [relocate_eq]
  cases hput : put? n with
  | none => rfl
  | some m => exact (h m hput).role

theorem named_relocate (h : ∀ m, put? n = some m → Fits move n m) :
    (relocate move put? n).named = n.named := by
  rw [relocate_eq]
  cases hput : put? n with
  | none => rfl
  | some m => exact (h m hput).named

theorem kind_relocate (h : ∀ m, put? n = some m → Fits move n m) :
    n.kind.Becomes (relocate move put? n).kind := by
  rw [relocate_eq]
  cases hput : put? n with
  | none => exact .inl rfl
  | some m => exact (h m hput).kind

mutual
theorem inside_relocate (hmove : StrictMono move) (hput : ∀ n m, put? n = some m → Fits move n m) :
    (n : Node) →
    ∀ {left right : ℕ}, Inside left right n → Inside (move left) (move right) (relocate move put? n)
  | ⟨kind, role, named, start, stop, children⟩, left, right, h => by
    have hleft : move left ≤ move start := hmove.monotone h.left_le
    have hright : move stop ≤ move right := hmove.monotone h.le_right
    rw [relocate]
    cases hm : put? ⟨kind, role, named, start, stop, children⟩ with
    | none => exact ⟨hleft, hmove h.start_lt, hright,
      orderedAll_relocate hmove hput children h.ordered⟩
    | some m => exact ((hput _ m hm).inside h.own).widen hleft hright

theorem orderedAll_relocate (hmove : StrictMono move)
    (hput : ∀ n m, put? n = some m → Fits move n m) :
    (ns : List Node) → ∀ {left right : ℕ}, orderedAll left right ns = true →
    orderedAll (move left) (move right) (relocateAll move put? ns) = true
  | [], left, right, h => by
    simp only [orderedAll, decide_eq_true_eq] at h
    simpa only [relocateAll, orderedAll, decide_eq_true_eq] using hmove.monotone h
  | n :: ns, left, right, h => by
    obtain ⟨hn, hns⟩ := orderedAll_cons.1 h
    have hfirst := inside_relocate hmove hput n hn.own
    refine orderedAll_cons.2 ⟨inside_relocate hmove hput n hn, ?_⟩
    exact orderedAll_widen (orderedAll_relocate hmove hput ns hns) hfirst.le_right
end

theorem startsWith_map {first : Option Node} {kind : Kind} {f : Node → Node}
    (hf : ∀ n, (f n).role = n.role ∧ (f n).named = n.named ∧
      (n.kind = .jsxOpeningElement → (f n).kind = .jsxOpeningElement))
      (h : startsWith first kind = true) :
    startsWith (first.map f) kind = true := by
  cases first with
  | none => exact h
  | some n =>
    obtain ⟨hrole, hnamed, hkind⟩ := hf n
    unfold startsWith at h ⊢
    split at h <;> simp_all

mutual
theorem marked_relocate (hput : ∀ n m, put? n = some m → Fits move n m) :
    (n : Node) → n.marked = true →
    (relocate move put? n).marked = true
  | ⟨kind, role, named, start, stop, children⟩, h => by
    rw [relocate]
    cases hm : put? ⟨kind, role, named, start, stop, children⟩ with
    | some m => exact (hput _ m hm).marked h
    | none =>
      obtain ⟨hleaf, hstarts, hbelow⟩ := marked_iff.1 h
      refine marked_iff.2 ⟨fun hnamed => ?_, ?_, ?_⟩
      · simpa [relocateAll_eq_map] using hleaf hnamed
      · simp only [Option.getD_none, relocateAll_eq_map, List.head?_map]
        refine startsWith_map (fun n => ⟨role_relocate (hput n), named_relocate (hput n),
          fun hkind => ?_⟩) hstarts
        rw [(kind_relocate (hput n)).eq (hkind ▸ rfl), hkind]
      · exact markedAll_iff.1 (markedAll_relocate hput children (markedAll_iff.2 hbelow))

theorem markedAll_relocate (hput : ∀ n m, put? n = some m → Fits move n m) : (ns : List Node) →
    markedAll ns = true → markedAll (relocateAll move put? ns) = true
  | [], _ => rfl
  | n :: ns, h => by
    obtain ⟨hn, hns⟩ := Bool.and_eq_true_iff.1 h
    exact Bool.and_eq_true_iff.2 ⟨marked_relocate hput n hn, markedAll_relocate hput ns hns⟩
end

theorem has_map {f : Node → Node} {role : Role} (hf : ∀ c, (f c).role = c.role)
    (hchildren : m.children = n.children.map f) : m.has role = n.has role := by
  have hroles : (fun c : Node => (f c).role == some role) = fun c => c.role == some role :=
    funext fun c => by rw [hf c]
  rw [has, has, child?, child?, hchildren, List.find?_map, Option.isSome_map,
    Function.comp_def, hroles]

/-- What the shapes of other nodes ask of a node. -/
structure Resembles (n m : Node) : Prop where
  role : m.role = n.role
  named : m.named = n.named
  kind : n.kind.Becomes m.kind
  pattern : n.kind.isParameter = true → m.has .pattern = n.has .pattern

section
variable {f : Node → Node} (hf : ∀ c : Node, Resembles c (f c))
include hf

/-- The parts of a node whose children become others, one by one. -/
theorem parts_map (hchildren : m.children = n.children.map f) : m.parts = n.parts.map f := by
  rw [parts, parts, hchildren, List.filter_map]
  refine congrArg (List.map f) (List.filter_congr fun c _ => ?_)
  rw [Function.comp_apply, (hf c).named, (hf c).kind.bne_eq .comment rfl]

theorem isAttributeShape_map (h : hasShape.isAttributeShape ns = true) :
    hasShape.isAttributeShape (ns.map f) = true := by
  have hbraces (c : Node) : ((f c).kind != .jsxExpression) = (c.kind != .jsxExpression) :=
    (hf c).kind.bne_eq .jsxExpression rfl
  unfold hasShape.isAttributeShape at h
  split at h
  · simpa only [hasShape.isAttributeShape, List.map_cons, List.map_nil, hbraces] using h
  · next name value =>
    have hvalue :=
      (hf value).kind.eq (Kind.isOperand_of_isAttributeValue (Bool.and_eq_true_iff.1 h).2)
    simpa only [hasShape.isAttributeShape, List.map_cons, List.map_nil, hbraces, hvalue] using h
  · contradiction

theorem hasShape_map (hkind : m.kind = n.kind) (hrole : m.role = n.role)
    (hchildren : m.children = n.children.map f) (h : n.hasShape typed = true) :
    m.hasShape typed = true := by
  have hattributes : (m.children.all fun c => c.kind != .jsxAttribute) =
      n.children.all fun c => c.kind != .jsxAttribute := by
    rw [hchildren, List.all_map]
    exact congrArg (n.children.all ·) (funext fun c => (hf c).kind.bne_eq .jsxAttribute rfl)
  have hname : m.has .name = n.has .name := has_map (fun c => (hf c).role) hchildren
  have hparts := parts_map hf hchildren
  rw [hasShape, Bool.and_eq_true] at h ⊢
  rw [hrole, hkind, hname, hattributes]
  refine ⟨h.1, ?_⟩
  cases hk : n.kind with
  | string => simpa [hk, hchildren] using h.2
  | templateString =>
    simpa [hk, hchildren, Option.any_map, Function.comp_def, fun c => (hf c).named] using h.2
  | jsxAttribute =>
    simp only [hk, Bool.and_eq_true] at h ⊢
    exact ⟨h.2.1, hparts ▸ isAttributeShape_map hf h.2.2⟩
  | jsxExpression => simpa [hk, hparts] using h.2
  | parenthesizedExpression =>
    simp only [hk, hparts, ← List.map_tail, List.all_map] at h ⊢
    refine List.all_eq_true.2 fun type htype => ?_
    have hother : type.kind = .other := by simpa using List.all_eq_true.1 h.2 type htype
    simpa using ((hf type).kind.eq_iff .other rfl).2 hother
  | formalParameters =>
    simp only [hk, hparts, List.all_map] at h ⊢
    refine Bool.or_eq_true_iff.2 ((Bool.or_eq_true_iff.1 h.2).imp_right fun hall => ?_)
    refine List.all_eq_true.2 fun p hp => ?_
    obtain ⟨hparameter, hpattern⟩ := Bool.and_eq_true_iff.1 (List.all_eq_true.1 hall p hp)
    have hkept := (hf p).kind.eq (Kind.isOperand_of_isParameter hparameter)
    rw [Function.comp_apply, hkept, hparameter, (hf p).pattern hparameter, hpattern]
    rfl
  | _ => rfl

end

theorem resembles_relocate (hput : ∀ n m, put? n = some m → Fits move n m) (n : Node) :
    Resembles n (relocate move put? n) where
  role := role_relocate (hput n)
  named := named_relocate (hput n)
  kind := kind_relocate (hput n)
  pattern hparameter := by
    rw [relocate_eq]
    cases hm : put? n with
    | some m => exact (hput n m hm).pattern hparameter
    | none => exact has_map (fun c => role_relocate (hput c)) rfl

mutual
theorem shaped_relocate (hput : ∀ n m, put? n = some m → Fits move n m) : (n : Node) →
    n.shaped typed = true → (relocate move put? n).shaped typed = true
  | ⟨kind, role, named, start, stop, children⟩, h => by
    rw [relocate]
    cases hm : put? ⟨kind, role, named, start, stop, children⟩ with
    | some m => exact (hput _ m hm).shaped typed h
    | none =>
      obtain ⟨hshape, hbelow⟩ := shaped_iff.1 h
      refine shaped_iff.2
        ⟨?_, shapedAll_iff.1 (shapedAll_relocate hput children (shapedAll_iff.2 hbelow))⟩
      refine hasShape_map (resembles_relocate hput) ?_ ?_ ?_ hshape
      · rfl
      · rfl
      · exact relocateAll_eq_map

theorem shapedAll_relocate (hput : ∀ n m, put? n = some m → Fits move n m) : (ns : List Node) →
    shapedAll typed ns = true → shapedAll typed (relocateAll move put? ns) = true
  | [], _ => rfl
  | n :: ns, h => by
    obtain ⟨hn, hns⟩ := Bool.and_eq_true_iff.1 h
    exact Bool.and_eq_true_iff.2 ⟨shaped_relocate hput n hn, shapedAll_relocate hput ns hns⟩
end

end

def shift (d : ℕ) : Node → Node := relocate (· + d) fun _ => none

theorem shift_eq (d : ℕ) (n : Node) : shift d n =
    ⟨n.kind, n.role, n.named, n.start + d, n.stop + d, n.children.map (shift d)⟩ :=
  relocate_eq n

theorem inside_shift (d : ℕ) (h : Inside left right n) :
    Inside (left + d) (right + d) (shift d n) :=
  inside_relocate (fun _ _ h => Nat.add_lt_add_right h d) (by simp) n h

theorem marked_shift (d : ℕ) (h : n.marked = true) : (shift d n).marked = true :=
  marked_relocate (by simp) n h

theorem shaped_shift (d : ℕ) (h : n.shaped typed = true) : (shift d n).shaped typed = true :=
  shaped_relocate (by simp) n h

/-- A node in pairs of parentheses, the first of which opens `offset` characters behind where the
node was. -/
def inParentheses (e : Node) : (k offset : ℕ) → (role : Option Role) → Node
  | 0, offset, role => { shift offset e with role }
  | k + 1, offset, role =>
    ⟨.parenthesizedExpression, role, true, e.start + offset, e.stop + offset + 2 * (k + 1),
      [leaf .other false (e.start + offset) (e.start + offset + 1),
        inParentheses e k (offset + 1) none,
        leaf .other false (e.stop + offset + 2 * k + 1) (e.stop + offset + 2 * (k + 1))]⟩

theorem role_inParentheses (e : Node) (k offset : ℕ) (role : Option Role) :
    (inParentheses e k offset role).role = role := by
  cases k <;> rfl

theorem named_inParentheses (he : e.named = true) (k offset : ℕ) (role : Option Role) :
    (inParentheses e k offset role).named = true := by
  cases k with
  | zero => simpa only [inParentheses, shift_eq] using he
  | succ k => rfl

theorem inside_leaf {kind : Kind} {named : Bool} (h : left < right) :
    Inside left right (leaf kind named left right) :=
  ⟨le_rfl, h, le_rfl, decide_eq_true h.le⟩

theorem inside_inParentheses (he : Inside e.start e.stop e) (k offset : ℕ) (role : Option Role) :
    Inside (e.start + offset) (e.stop + offset + 2 * k) (inParentheses e k offset role) := by
  induction k generalizing offset role with
  | zero =>
    have h := inside_shift offset he
    exact ⟨h.left_le, h.start_lt, h.le_right,
      (ordered_eq _).trans (ordered_eq (shift offset e) ▸ h.ordered)⟩
  | succ k ih =>
    have hinner := ih (offset + 1) none
    have hlt := he.start_lt
    have hopen : Inside (e.start + offset) (e.start + offset + 1)
        (leaf .other false (e.start + offset) (e.start + offset + 1)) :=
      inside_leaf (Nat.lt_succ_self _)
    have hclose : Inside (e.stop + offset + 2 * k + 1) (e.stop + offset + 2 * (k + 1))
        (leaf .other false (e.stop + offset + 2 * k + 1) (e.stop + offset + 2 * (k + 1))) :=
      inside_leaf (by omega)
    refine ⟨le_rfl, show e.start + offset < e.stop + offset + 2 * (k + 1) by omega, le_rfl, ?_⟩
    change orderedAll (e.start + offset) (e.stop + offset + 2 * (k + 1)) [_, _, _] = true
    refine orderedAll_cons.2 ⟨hopen.widen le_rfl (by omega), ?_⟩
    refine orderedAll_cons.2 ⟨hinner.widen le_rfl (by omega), ?_⟩
    refine orderedAll_cons.2 ⟨hclose.widen (hinner.le_right.trans (by omega)) le_rfl, ?_⟩
    exact decide_eq_true le_rfl

theorem marked_inParentheses (he : e.marked = true) (k offset : ℕ) (role : Option Role) :
    (inParentheses e k offset role).marked = true := by
  induction k generalizing offset role with
  | zero =>
    have h := marked_iff.1 (marked_shift offset he)
    exact marked_iff.2 h
  | succ k ih =>
    refine marked_iff.2 ⟨nofun, rfl, ?_⟩
    simp only [inParentheses, List.forall_mem_cons]
    exact ⟨rfl, ih _ _, rfl, List.forall_mem_nil _⟩

theorem kind_inParentheses (he : e.kind.isOperand = true) (k offset : ℕ) (role : Option Role) :
    e.kind.Becomes (inParentheses e k offset role).kind := by
  cases k with
  | zero => exact .inl (by rw [inParentheses, shift_eq])
  | succ k => exact .inr ⟨he, rfl⟩

theorem hasShape_of_isOperand (h : n.kind.isOperand = true) :
    n.hasShape typed =
      (n.role != some .parameters && n.children.all fun c => c.kind != .jsxAttribute) := by
  unfold hasShape
  cases hk : n.kind <;> simp_all [Kind.isOperand, Kind.isTag]

theorem shaped_inParentheses (he : e.shaped typed = true) (hkind : e.kind.isOperand = true)
    (hnamed : e.named = true) (k offset : ℕ) {role : Option Role}
    (hrole : role ≠ some .parameters) :
    (inParentheses e k offset role).shaped typed = true := by
  induction k generalizing offset role with
  | zero =>
    obtain ⟨hshape, hbelow⟩ := shaped_iff.1 (shaped_shift offset he)
    have hshift : (shift offset e).kind.isOperand = true := by rwa [shift_eq]
    have hoperand : (inParentheses e 0 offset role).kind.isOperand = true := hshift
    refine shaped_iff.2 ⟨?_, hbelow⟩
    rw [hasShape_of_isOperand hshift, Bool.and_eq_true] at hshape
    rw [hasShape_of_isOperand hoperand, Bool.and_eq_true]
    exact ⟨bne_iff_ne.2 hrole, hshape.2⟩
  | succ k ih =>
    refine shaped_iff.2 ⟨?_, ?_⟩
    · have hinner := kind_inParentheses hkind k (offset + 1) none
      have hattribute := hinner.eq_iff .jsxAttribute rfl
      have hcomment := hinner.eq_iff .comment rfl
      have hname := named_inParentheses hnamed k (offset + 1) none
      have hneither : e.kind ≠ .jsxAttribute ∧ e.kind ≠ .comment := by
        constructor <;> intro hk <;> simp [hk, Kind.isOperand] at hkind
      simp [inParentheses, hasShape, parts, leaf, hattribute, hcomment, hname, hneither, hrole, bne]
    · simp only [inParentheses, List.forall_mem_cons]
      exact ⟨rfl, ih _ (Option.some_ne_none _).symm, rfl, List.forall_mem_nil _⟩

/-- Where an offset is, once there are `k` pairs of parentheses around `e`, if it is not inside. -/
def beside (e : Node) (k offset : ℕ) : ℕ := if offset < e.stop then offset else offset + 2 * k

theorem beside_of_lt {k offset : ℕ} (h : offset < e.stop) : beside e k offset = offset := if_pos h

theorem beside_of_le {k offset : ℕ} (h : e.stop ≤ offset) : beside e k offset = offset + 2 * k :=
  if_neg h.not_gt

theorem strictMono_beside (e : Node) (k : ℕ) : StrictMono (beside e k) := by
  intro i j h
  unfold beside
  split_ifs <;> omega

/-- The tree with `k` pairs of parentheses around `e`. -/
def parenthesize (e : Node) (k : ℕ) : Node → Node :=
  relocate (beside e k) fun n => if n = e then some (inParentheses e k 0 e.role) else none

theorem parenthesize_self (e : Node) (k : ℕ) : parenthesize e k e = inParentheses e k 0 e.role := by
  rw [parenthesize, relocate_eq, if_pos rfl, Option.getD_some]

theorem parenthesize_of_ne {k : ℕ} (h : n ≠ e) : parenthesize e k n =
    ⟨n.kind, n.role, n.named, beside e k n.start, beside e k n.stop,
      n.children.map (parenthesize e k)⟩ := by
  rw [parenthesize, relocate_eq, if_neg h, Option.getD_none]

theorem fits_inParentheses (hnamed : e.named = true) (hkind : e.kind.isOperand = true)
    (hlt : e.start < e.stop) (k : ℕ) : Fits (beside e k) e (inParentheses e k 0 e.role) where
  role := role_inParentheses e k 0 e.role
  named := (named_inParentheses hnamed k 0 e.role).trans hnamed.symm
  kind := kind_inParentheses hkind k 0 e.role
  inside h := by simpa [beside, hlt] using inside_inParentheses h k 0 e.role
  marked h := marked_inParentheses h k 0 e.role
  shaped typed h := by
    have hshape := (shaped_iff.1 h).1
    rw [hasShape_of_isOperand hkind, Bool.and_eq_true] at hshape
    exact shaped_inParentheses h hkind hnamed k 0 (bne_iff_ne.1 hshape.1)
  pattern hparameter := by
    rw [Kind.isOperand_of_isParameter hparameter] at hkind
    contradiction

theorem span_inParentheses (e : Node) (k offset : ℕ) (role : Option Role) :
    (inParentheses e k offset role).start = e.start + offset ∧
      (inParentheses e k offset role).stop = e.stop + offset + 2 * k := by
  cases k with
  | zero => simp [inParentheses, shift_eq]
  | succ k => exact ⟨rfl, rfl⟩

theorem span_parenthesize (hlt : e.start < e.stop) (k : ℕ) (n : Node) :
    (parenthesize e k n).start = beside e k n.start ∧
      (parenthesize e k n).stop = beside e k n.stop := by
  by_cases h : n = e
  · subst h
    simpa [parenthesize_self, beside, hlt] using span_inParentheses n k 0 n.role
  · rw [parenthesize_of_ne h]
    exact ⟨rfl, rfl⟩

/-- Whether a node has `e` in it, or stands apart from it. -/
def Clear (e n : Node) : Prop := n.stop ≤ e.start ∨ e.stop ≤ n.start ∨ e ∈ n.preorder

/-- Where `e` is not cut by a node, it is not by those below, down to `e` itself. -/
theorem clear_of_orderedAll (h : orderedAll left right ns = true)
    (he : right ≤ e.start ∨ e.stop ≤ left ∨ ∃ c ∈ ns, e ∈ c.preorder) : ∀ c ∈ ns, Clear e c := by
  intro c hc
  have hinside := inside_of_orderedAll h
  rcases he with hbefore | hbehind | ⟨d, hd, he⟩
  · exact .inl ((hinside c hc).le_right.trans hbefore)
  · exact .inr (.inl (hbehind.trans (hinside c hc).left_le))
  · by_cases hcd : c = d
    · exact .inr (.inr (hcd ▸ he))
    · have he := (hinside d hd).own.of_mem_preorder he
      rcases apart_of_orderedAll h hc hd hcd with hbefore | hbehind
      · exact .inl (hbefore.trans he.left_le)
      · exact .inr (.inl (he.le_right.trans hbehind))

theorem clear_children (h : Inside left right n) (he : Clear e n) (hne : n ≠ e) :
    ∀ c ∈ n.children, Clear e c := by
  refine clear_of_orderedAll (ordered_eq n ▸ h.ordered) (he.imp_right (.imp_right fun he => ?_))
  exact (mem_preorder_iff.1 he).resolve_left hne.symm

section
variable {text : Array Char} {k s t : ℕ}

/-- The characters of a text from `left` to `right`, with `k` pairs of parentheses around those of
`e`. -/
def parenthesizedText (text : Array Char) (e : Node) (k left right : ℕ) : Array Char :=
  text.extract left e.start ++ Array.replicate k '(' ++ text.extract e.start e.stop ++
    Array.replicate k ')' ++
    text.extract e.stop right

theorem size_parenthesizedText (h : Inside 0 text.size e) :
    (parenthesizedText text e k 0 text.size).size = text.size + 2 * k := by
  have hlt := h.start_lt
  have hsize := h.le_right
  simp only [parenthesizedText, Array.size_append, Array.size_extract, Array.size_replicate]
  omega

theorem getElem?_parenthesizedText (h : Inside 0 text.size e) (i : ℕ) :
    (parenthesizedText text e k 0 text.size)[i]? =
      if i < e.start then text[i]?
      else if i < e.start + k then some '('
      else if i < e.stop + k then text[i - k]?
      else if i < e.stop + 2 * k then some ')'
      else text[i - 2 * k]? := by
  have hlt := h.start_lt
  have hsize := h.le_right
  simp only [parenthesizedText, Array.getElem?_append, Array.size_append, Array.size_extract,
    Array.size_replicate, Array.getElem?_extract, Array.getElem?_replicate]
  grind

theorem extract_before (h : Inside 0 text.size e) (ht : t ≤ e.start) :
    (parenthesizedText text e k 0 text.size).extract s t = text.extract s t := by
  have hlt := h.start_lt
  have hsize := h.le_right
  refine Array.ext_getElem? fun i => ?_
  simp only [Array.getElem?_extract, getElem?_parenthesizedText h, size_parenthesizedText h]
  grind

theorem extract_inside (h : Inside 0 text.size e) (hs : e.start ≤ s) (ht : t ≤ e.stop) :
    (parenthesizedText text e k 0 text.size).extract (s + k) (t + k) = text.extract s t := by
  have hsize := h.le_right
  refine Array.ext_getElem? fun i => ?_
  simp only [Array.getElem?_extract, getElem?_parenthesizedText h, size_parenthesizedText h]
  grind

theorem extract_behind (h : Inside 0 text.size e) (hs : e.stop ≤ s) :
    (parenthesizedText text e k 0 text.size).extract (s + 2 * k) (t + 2 * k) =
      text.extract s t := by
  have hlt := h.start_lt
  have hsize := h.le_right
  refine Array.ext_getElem? fun i => ?_
  simp only [Array.getElem?_extract, getElem?_parenthesizedText h, size_parenthesizedText h]
  grind

theorem extract_around (h : Inside 0 text.size e) (hs : s ≤ e.start) (he : e.stop ≤ t)
    (ht : t ≤ text.size) :
    (parenthesizedText text e k 0 text.size).extract s (t + 2 * k) =
      parenthesizedText text e k s t := by
  have hlt := h.start_lt
  refine Array.ext_getElem? fun i => ?_
  simp only [Array.getElem?_extract, getElem?_parenthesizedText h, size_parenthesizedText h]
  simp only [parenthesizedText, Array.getElem?_append, Array.size_append, Array.size_extract,
    Array.size_replicate, Array.getElem?_extract, Array.getElem?_replicate]
  grind

end

end Node

/-- A function or an object literal of a file in the position of an expression. The list of
parameters of a function is no expression, and names, being tokens, have none in them. -/
structure Operand (file : SourceFile) where
  node : Node
  mem : node ∈ file.root.preorder
  named : node.named = true
  isOperand : node.kind.isOperand = true
  notParameters : node.role ≠ some .parameters
  notInName : ∀ n ∈ file.root.preorder, n.kind.isName = true → node ∉ n.preorder
  notInDeclared : ∀ f ∈ file.root.preorder, f.kind = .functionDeclaration →
    ∀ name ∈ f.child? .name, node ∉ name.preorder

open Node

theorem SourceFile.inside_of_mem_preorder (file : SourceFile) {n : Node}
    (hn : n ∈ file.root.preorder) (hne : n ≠ file.root) : Inside 0 file.text.size n := by
  obtain ⟨p, hp, rfl⟩ := mem_preorder.1 hn
  exact ((file.eq_root_or hp).resolve_left hne).2

theorem SourceFile.eq_of_root_eq {file file' : SourceFile} (hpath : file.path = file'.path)
    (hlanguage : file.language = file'.language) (htext : file.text = file'.text)
    (hroot : file.root = file'.root) :
    file = file' := by
  cases file
  cases file'
  simp_all

variable {file : SourceFile} {n : Node}

namespace Operand

theorem ne_root (e : Operand file) : e.node ≠ file.root := by
  intro h
  have hkind := e.isOperand
  rw [h, file.isProgram] at hkind
  cases hkind

theorem inside (e : Operand file) : Inside 0 file.text.size e.node :=
  file.inside_of_mem_preorder e.mem e.ne_root

theorem fits (e : Operand file) (k : ℕ) (n m : Node)
    (h : (if n = e.node then some (inParentheses e.node k 0 e.node.role) else none) = some m) :
    Fits (beside e.node k) n m := by
  obtain ⟨rfl, rfl⟩ : n = e.node ∧ inParentheses e.node k 0 e.node.role = m := by simpa using h
  exact fits_inParentheses e.named e.isOperand e.inside.start_lt k

theorem role_parenthesize (e : Operand file) (k : ℕ) (n : Node) :
    (parenthesize e.node k n).role = n.role :=
  role_relocate (e.fits k n)

theorem named_parenthesize (e : Operand file) (k : ℕ) (n : Node) :
    (parenthesize e.node k n).named = n.named :=
  named_relocate (e.fits k n)

theorem parenthesize_root (e : Operand file) (k : ℕ) : parenthesize e.node k file.root =
    ⟨file.root.kind, file.root.role, file.root.named, beside e.node k file.root.start,
      beside e.node k file.root.stop, file.root.children.map (parenthesize e.node k)⟩ :=
  parenthesize_of_ne e.ne_root.symm

end Operand

def SourceFile.parenthesize (file : SourceFile) (e : Operand file) (k : ℕ) : SourceFile where
  path := file.path
  language := file.language
  text := parenthesizedText file.text e.node k 0 file.text.size
  root := Node.parenthesize e.node k file.root
  isOrdered := by
    have h := orderedAll_relocate (strictMono_beside e.node k) (e.fits k) file.root.children
      file.isOrdered
    rw [relocateAll_eq_map, beside_of_lt (Nat.zero_lt_of_lt e.inside.start_lt),
      beside_of_le e.inside.le_right] at h
    rw [size_parenthesizedText e.inside, e.parenthesize_root]
    exact h
  isMarked := by
    have h := markedAll_relocate (e.fits k) file.root.children file.isMarked
    rw [relocateAll_eq_map] at h
    rw [e.parenthesize_root]
    exact h
  isShaped := shaped_relocate (e.fits k) file.root file.isShaped
  isProgram := by
    rw [e.parenthesize_root]
    exact file.isProgram

namespace Operand

variable (e : Operand file) (k : ℕ)

theorem textOf_shift (h : Inside e.node.start e.node.stop n) :
    (file.parenthesize e k).textOf (shift k n) = file.textOf n := by
  rw [SourceFile.textOf, SourceFile.textOf, SourceFile.parenthesize, shift_eq,
    extract_inside e.inside h.left_le h.le_right]

/-- What stands apart from an expression in parentheses keeps its text. -/
theorem textOf_parenthesize (h : n.start < n.stop) (hclear : Clear e.node n)
    (hn : e.node ∉ n.preorder) :
    (file.parenthesize e k).textOf (parenthesize e.node k n) = file.textOf n := by
  obtain ⟨hstart, hstop⟩ := span_parenthesize e.inside.start_lt k n
  rw [SourceFile.textOf, SourceFile.textOf, SourceFile.parenthesize, hstart, hstop]
  have hlt := e.inside.start_lt
  rcases hclear with hbefore | hbehind | hmem
  · rw [beside_of_lt (by omega), beside_of_lt (by omega), extract_before e.inside hbefore]
  · rw [beside_of_le (by omega), beside_of_le (by omega), extract_behind e.inside hbehind]
  · exact absurd hmem hn

/-- What an expression in parentheses stands in shows the parentheses. -/
theorem textOf_parenthesize_of_mem (h : Inside 0 file.text.size n) (hn : e.node ∈ n.preorder) :
    (file.parenthesize e k).textOf (parenthesize e.node k n) =
      String.ofList (parenthesizedText file.text e.node k n.start n.stop).toList := by
  obtain ⟨hstart, hstop⟩ := span_parenthesize e.inside.start_lt k n
  rw [SourceFile.textOf, SourceFile.parenthesize, hstart, hstop]
  have he := h.own.of_mem_preorder hn
  have hlt := e.inside.start_lt
  have hleft := he.left_le
  have hright := he.le_right
  rw [beside_of_lt (by omega), beside_of_le hright, extract_around e.inside hleft hright h.le_right]

end Operand
end QualityGate.Syntax
