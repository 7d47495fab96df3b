import QualityGate.Proofs.Violation
import QualityGate.Proofs.Walks

/-!
What counts as a function for the check on nesting. The keyword `function` is a node with the kind
of a function, so it is judged like one, as a function inside the one that it introduces. All
functions above a node are constructs, since a keyword has nothing below it. So the levels are
right, and the breaches are those of the constructs as long as no keyword lies too deep.
-/
namespace QualityGate

open Syntax Node

def Syntax.Node.isToken (n : Node) : Bool := !n.named && n.children.isEmpty

/-- Declarations, expressions, arrows and methods, without the keyword that introduces them. -/
def Syntax.Node.isConstruct (n : Node) : Bool := n.kind.isFunctionLike && !n.isToken

/-- The number of functions around a place. -/
def Syntax.Node.Place.depth (p : Place) : Nat := p.above.countP isConstruct

mutual
theorem children_ne_nil_of_above {above : List Node} (h : ∀ a ∈ above, a.children ≠ []) :
    (n : Node) → ∀ p ∈ places above n, ∀ a ∈ p.above, a.children ≠ []
  | ⟨_, _, _, _, _, []⟩, p, hp => by
    obtain rfl := List.mem_singleton.1 hp
    exact h
  | ⟨kind, role, named, start, stop, child :: later⟩, p, hp => by
    rcases List.mem_cons.1 hp with rfl | hp
    · exact h
    · exact children_ne_nil_of_aboveAll
        (List.forall_mem_cons.2 ⟨List.cons_ne_nil child later, h⟩) (child :: later) p hp

theorem children_ne_nil_of_aboveAll {above : List Node} (h : ∀ a ∈ above, a.children ≠ []) :
    (ns : List Node) → ∀ p ∈ placesAll above ns, ∀ a ∈ p.above, a.children ≠ []
  | [], p, hp => absurd hp List.not_mem_nil
  | n :: ns, p, hp => by
    rcases List.mem_append.1 hp with hp | hp
    · exact children_ne_nil_of_above h n p hp
    · exact children_ne_nil_of_aboveAll h ns p hp
end

/-- No token is above another node. -/
theorem level_eq_depth {root : Node} {p : Place} (hp : p ∈ places [] root) :
    p.level Kind.isFunctionLike = p.depth := by
  refine List.countP_congr fun a ha => ?_
  have hchildren := children_ne_nil_of_above (List.forall_mem_nil _) root p hp a ha
  simp [isConstruct, isToken, hchildren]

namespace Nesting

variable (settings : Settings) (file : SourceFile)

def ofConstructs (max : Nat) : List Violation :=
  ((places [] file.root).filter fun p => p.node.isConstruct && p.depth > max).map fun p =>
    breach file max p.depth p.node

theorem check_eq_depth : check settings file =
    ((places [] file.root).filter fun p =>
      p.node.kind.isFunctionLike && p.depth > settings.thresholds.maxFunctionNesting).map fun p =>
        breach file settings.thresholds.maxFunctionNesting p.depth p.node := by
  have hdeep : ∀ p ∈ places [] file.root, isDeep settings.thresholds.maxFunctionNesting p =
      (p.node.kind.isFunctionLike && p.depth > settings.thresholds.maxFunctionNesting) := by
    intro p hp
    rw [isDeep, level_eq_depth hp]
  rw [check_eq, List.filter_congr hdeep]
  refine List.map_congr_left fun p hp => ?_
  rw [breachAt, level_eq_depth (List.mem_filter.1 hp).1]

/-- Every construct and every keyword of a function is judged by the number of constructs around it.
So the breaches are just those of the constructs where no such keyword, which has its own function
around it, lies inside more than the limit. -/
theorem check_eq_ofConstructs_iff :
    check settings file = ((places [] file.root).filter fun p =>
        p.node.kind.isFunctionLike &&
          p.depth > settings.thresholds.maxFunctionNesting).map (fun p =>
          breach file settings.thresholds.maxFunctionNesting p.depth p.node) ∧
      (check settings file = ofConstructs file settings.thresholds.maxFunctionNesting ↔
        ∀ p ∈ places [] file.root, p.node.kind.isFunctionLike = true → p.node.isToken = true →
          p.depth ≤ settings.thresholds.maxFunctionNesting) := by
  refine ⟨check_eq_depth settings file, ?_⟩
  rw [check_eq_depth, ofConstructs, map_filter_eq_iff fun p hp => ?narrow]
  case narrow =>
    simp only [isConstruct, Bool.and_eq_true] at hp ⊢
    exact ⟨hp.1.1, hp.2⟩
  refine forall₂_congr fun p hp => ?_
  cases hf : p.node.kind.isFunctionLike <;> cases ht : p.node.isToken <;>
    simp [isConstruct, hf, ht]

def fourFunctions : String :=
  "function a() \x7bfunction b() \x7bfunction c() \x7bfunction d() \x7b\x7d\x7d\x7d\x7d"

/-- The innermost function is inside three others, which is the limit, but its keyword is a
breach. -/
theorem keyword_of_fourth_function : ∃ file, SourceFile.parse ⟨"a.ts"⟩ fourFunctions = .ok file ∧
    ofConstructs file Thresholds.default.maxFunctionNesting = [] ∧
    (check .default file).map (·.message) = ["Function nested 4 levels deep (max 3)"] := by
  have hrun : (SourceFile.parse ⟨"a.ts"⟩ fourFunctions).toOption.any (fun file =>
      ofConstructs file Thresholds.default.maxFunctionNesting = [] ∧
        (check .default file).map (·.message) =
          ["Function nested 4 levels deep (max 3)"]) = true := by
    decide +kernel
  obtain ⟨file, hfile, h⟩ := exists_ok_of_any hrun
  exact ⟨file, hfile, of_decide_eq_true h⟩

end Nesting
end QualityGate
