import QualityGate.Semantic.AnyType
import Mathlib.Logic.Relation

/-!
Where functions have the types of their parameters from. An expression has its type from what it
stands in, and an object literal hands on its own to the values of its pairs and to its methods.
-/
namespace QualityGate.AnyType

open Syntax Node Relation

/-- Functions that are declared, or methods, are no expressions. -/
def isExpression (n : Node) : Bool :=
  match n.kind with
  | .methodDefinition | .functionDeclaration | .generatorFunctionDeclaration => false
  | _ => true

/-- What gives a type to the expressions in it: the arguments of a call, an expression in markup, a
cast, and a variable with a type. -/
def GivesType (n : Node) : Prop :=
  n.kind ∈ [.arguments, .jsxExpression, .asExpression, .satisfiesExpression] ∨
    n.kind = .variableDeclarator ∧ n.has .type = true

/-- An expression that has its type from what it stands in, parentheses aside. -/
def IsGiven (p : Place) : Prop := isExpression p.node = true ∧ ∃ n ∈ p.enclosing.head?, GivesType n

/-- What stands in an object literal, as the value of a pair or as a method. -/
inductive StandsIn : Place → Place → Prop
  | value {p : Place} {pair object : Node} {above : List Node} (expression : isExpression p.node =
    true)
      (enclosing : p.enclosing = pair :: object :: above) (isPair : pair.kind = .pair)
      (isObject : object.kind = .object) : StandsIn p ⟨object, above⟩
  | method {p : Place} {object : Node} {above : List Node} (isMethod : p.node.kind =
    .methodDefinition)
      (parent : p.above = object :: above) (isObject : object.kind = .object) :
        StandsIn p ⟨object, above⟩

/-- What has its type from its surroundings, or stands in an object literal that has, at any
depth. -/
def HasType (p : Place) : Prop := ∃ q, ReflTransGen StandsIn p q ∧ IsGiven q

variable {p : Place} {n : Node} {above : List Node}

theorem hasType_iff : HasType p ↔ IsGiven p ∨ ∃ q, StandsIn p q ∧ HasType q := by
  constructor
  · rintro ⟨q, hpq, hq⟩
    rcases hpq.cases_head with rfl | ⟨m, hpm, hmq⟩
    · exact .inl hq
    · exact .inr ⟨m, hpm, q, hmq, hq⟩
  · rintro (hp | ⟨m, hpm, q, hmq, hq⟩)
    · exact ⟨p, .refl, hp⟩
    · exact ⟨q, .head hpm hmq, hq⟩

theorem not_hasType_of_nil (hp : isExpression p.node = true) (henclosing : p.enclosing = []) :
    ¬ HasType p := by
  rw [hasType_iff]
  rintro (⟨-, parent, hparent, -⟩ | ⟨q, hstands, -⟩)
  · simp [henclosing] at hparent
  · cases hstands with
    | value _ h => cases henclosing.symm.trans h
    | method hmethod => simp [isExpression, hmethod] at hp

/-- What an expression stands in, parentheses aside, tells whether it has a type. -/
theorem hasType_iff_of_cons {parent : Node} (hp : isExpression p.node = true)
    (henclosing : p.enclosing = parent :: above) :
    HasType p ↔ GivesType parent ∨ parent.kind = .pair ∧
      ∃ object above', above = object :: above' ∧ object.kind = .object ∧
      HasType ⟨object, above'⟩ := by
  rw [hasType_iff]
  constructor
  · rintro (⟨-, other, hother, hgives⟩ | ⟨q, hstands, hq⟩)
    · obtain rfl : parent = other := by simpa [henclosing] using hother
      exact .inl hgives
    · cases hstands with
      | value _ h hpair hobject =>
        obtain ⟨rfl, rfl⟩ := List.cons.inj (henclosing.symm.trans h)
        exact .inr ⟨hpair, _, _, rfl, hobject, hq⟩
      | method hmethod => simp [isExpression, hmethod] at hp
  · rintro (hgives | ⟨hpair, object, above', rfl, hobject, hobjectType⟩)
    · exact .inl ⟨hp, parent, by simp [henclosing], hgives⟩
    · exact .inr ⟨_, .value hp henclosing hpair hobject, hobjectType⟩

theorem hasType_congr {q : Place} (hp : isExpression p.node = true)
    (hq : isExpression q.node = true) (h : p.enclosing = q.enclosing) : HasType p ↔ HasType q := by
  cases hq' : q.enclosing with
  | nil => exact iff_of_false (not_hasType_of_nil hp (h.trans hq')) (not_hasType_of_nil hq hq')
  | cons parent above => rw [hasType_iff_of_cons hp (h.trans hq'), hasType_iff_of_cons hq hq']

theorem hasType_method_iff (hp : p.node.kind = .methodDefinition) : HasType p ↔
    ∃ object above, p.above = object :: above ∧ object.kind = .object ∧
      HasType ⟨object, above⟩ := by
  rw [hasType_iff]
  constructor
  · rintro (⟨hexpression, -⟩ | ⟨q, hstands, hq⟩)
    · simp [isExpression, hp] at hexpression
    · cases hstands with
      | value hexpression => simp [isExpression, hp] at hexpression
      | method _ hparent hobject => exact ⟨_, _, hparent, hobject, hq⟩
  · rintro ⟨object, above, hparent, hobject, hobjectType⟩
    exact .inr ⟨_, .method hp hparent hobject, hobjectType⟩

theorem not_hasType_of_declared (hexpression : isExpression p.node = false)
    (hp : p.node.kind ≠ .methodDefinition) :
    ¬ HasType p := by
  rw [hasType_iff]
  rintro (⟨h, -⟩ | ⟨q, hstands, -⟩)
  · cases hexpression.symm.trans h
  · cases hstands with
    | value h => cases hexpression.symm.trans h
    | method h => exact hp h

def inTypedObject : List Node → Bool
  | object :: above => object.kind = .object && isTypedBy above
  | [] => false

theorem isTypedBy_cons (n : Node) (above : List Node) : isTypedBy (n :: above) =
    match n.kind with
    | .parenthesizedExpression => isTypedBy above
    | .arguments | .jsxExpression | .asExpression | .satisfiesExpression => true
    | .variableDeclarator => n.has .type
    | .pair => inTypedObject above
    | _ => false := by
  rw [isTypedBy.eq_def]
  cases above <;> rfl

theorem isContextual_eq (p : Place) : isContextual p =
    match p.node.kind with
    | .methodDefinition => inTypedObject p.above
    | .functionDeclaration | .generatorFunctionDeclaration => false
    | _ => isTypedBy p.above := by
  obtain ⟨n, above⟩ := p
  rw [isContextual]
  cases above <;> rfl

/-- The climb from an expression finds whether it has a type. Each step goes on from parentheses to
what is around them, or from a pair to its object. -/
theorem climb_iff (above : List Node) :
    (∀ n, isExpression n = true → (isTypedBy above = true ↔ HasType ⟨n, above⟩)) ∧
      (inTypedObject above = true ↔
        ∃ object above', above = object :: above' ∧ object.kind = .object ∧
          HasType ⟨object, above'⟩) := by
  induction above with
  | nil =>
    refine ⟨fun n hn => iff_of_false Bool.false_ne_true (not_hasType_of_nil hn rfl), ?_⟩
    simp [inTypedObject]
  | cons parent above ih =>
    obtain ⟨hexpression, hobject⟩ := ih
    refine ⟨fun n hn => ?_, ?_⟩
    · by_cases hparentheses : parent.kind = .parenthesizedExpression
      case pos =>
        rw [isTypedBy_cons, hparentheses, hexpression n hn]
        exact hasType_congr hn hn (by simp [Place.enclosing, hparentheses])
      have henclosing : Place.enclosing ⟨n, parent :: above⟩ = parent :: above := by
        simp [Place.enclosing, hparentheses]
      rw [hasType_iff_of_cons hn henclosing, ← hobject, isTypedBy_cons]
      cases hkind : parent.kind <;> simp_all [GivesType]
    · have h (hkind : parent.kind = .object) := hexpression parent (by simp [isExpression, hkind])
      simp +contextual [inTypedObject, h, and_assoc]

/-- The parameters of a function have types just if the function has one. -/
theorem isContextual_iff (p : Place) : isContextual p = true ↔ HasType p := by
  rw [isContextual_eq]
  by_cases hmethod : p.node.kind = .methodDefinition
  case pos => simpa only [hmethod, hasType_method_iff hmethod] using (climb_iff p.above).2
  cases hexpression : isExpression p.node with
  | false =>
    have hnone := not_hasType_of_declared hexpression hmethod
    cases hkind : p.node.kind <;> simp_all [isExpression]
  | true =>
    have hclimb := (climb_iff p.above).1 p.node hexpression
    cases hkind : p.node.kind <;> simp_all [isExpression]

instance (p : Place) : Decidable (HasType p) := decidable_of_iff _ (isContextual_iff p)

/-- What the parameters of a function leave open that have no types of their own. -/
def untyped (file : SourceFile) (f : Node) : List Diagnostic :=
  match f.child? .parameter, f.child? .parameters with
  | some only, _ => if only.kind = .identifier then [diagnostic file .parameter only only] else []
  | none, some all => all.parts.flatMap (ofParameter file)
  | none, none => []

theorem ofFunction_eq (file : SourceFile) (p : Place) : ofFunction file p =
    if !p.node.has .body || isContextual p then [] else untyped file p.node :=
  rfl

end QualityGate.AnyType
