import QualityGate.DesignToken
import QualityGate.Proofs.Violation
import QualityGate.Proofs.Syntax.Places
import Mathlib.Data.Option.Basic

/-!
Which argument of an animation call tells what is animated. The rule on layout takes the argument
with a fixed number, the rules on durations and easings take the last one, and both look no further
if this is no object. So they all judge a call by its last object only if the call ends with it,
right where the rule on layout expects it.
-/
namespace QualityGate.Animation

open Syntax Node

/-- The arguments of a call, without the parentheses around them. -/
def arguments (call : Node) : List Node :=
  ((call.child? .arguments).toList.flatMap parts).map unwrapped

def lastObject? (call : Node) : Option Node := ((arguments call).filter (·.kind = .object)).getLast?

def endingObject? (call : Node) : Option Node := (arguments call).getLast?.filter (·.kind = .object)

/-- The number of arguments before the one that says what is animated. -/
def targets (method : String) : ℕ := if method = "fromTo" then 2 else 1

/-- Some entry of an object has one of the keys that change the layout. -/
def AnimatesLayout (scope : Scope) (object : Node) : Prop :=
  ∃ pair ∈ object.parts, pair.kind = .pair ∧ pair.has .value = true ∧
    ∃ key ∈ scope.file.propertyKey? pair, key ∈ scope.tables.layoutAnimationProps

def HasLiteral (file : SourceFile) (key : String) (kind : Kind) (object : Node) : Prop :=
  ∃ pair ∈ object.parts, pair.kind = .pair ∧ file.propertyKey? pair = some key ∧
    ∃ value ∈ pair.child? .value, value.kind = kind

instance (scope : Scope) (object : Node) : Decidable (AnimatesLayout scope object) :=
  inferInstanceAs (Decidable (∃ pair ∈ object.parts, pair.kind = .pair ∧ pair.has .value = true ∧
    ∃ key ∈ scope.file.propertyKey? pair, key ∈ scope.tables.layoutAnimationProps))

instance (file : SourceFile) (key : String) (kind : Kind) (object : Node) :
    Decidable (HasLiteral file key kind object) :=
  inferInstanceAs (Decidable (∃ pair ∈ object.parts, pair.kind = .pair ∧
    file.propertyKey? pair = some key ∧
    ∃ value ∈ pair.child? .value, value.kind = kind))

variable {scope : Scope} {n call : Node} {p : Place} {object method : String} {left right : ℕ}

theorem animationVars?_eq (call : Node) (method : String) : Structure.animationVars? call method =
    (arguments call)[targets method]?.filter (·.kind = .object) := by
  unfold Structure.animationVars? arguments targets
  cases call.child? .arguments with
  | none => simp
  | some all =>
    cases h : all.parts[if method = "fromTo" then 2 else 1]? with
    | none => simp [h]
    | some vars => by_cases hkind : vars.unwrapped.kind = .object <;>
      simp [h, hkind, Option.filter, guard]

theorem mem_entries {file : SourceFile} {key : String} {value : Node} {vars : Node} :
    (key, value) ∈ file.entries vars ↔ ∃ pair ∈ vars.parts, pair.kind = .pair ∧
      file.propertyKey? pair = some key ∧ pair.child? .value = some value := by
  simp [SourceFile.entries, and_assoc, Option.bind_eq_some_iff]

theorem animatesLayout_iff {vars : Node} : AnimatesLayout scope vars ↔
    ((scope.file.entries vars).map (·.1)).filter
      scope.tables.layoutAnimationProps.contains ≠ [] := by
  simp only [AnimatesLayout, ne_eq, List.filter_eq_nil_iff, List.mem_map, Prod.exists,
    exists_and_right, exists_eq_right, mem_entries, List.contains_iff_mem, has,
    Option.isSome_iff_exists, Option.mem_def, not_forall, not_not, exists_prop]
  constructor
  · rintro ⟨pair, hpair, hkind, ⟨value, hvalue⟩, key, hkey, hlayout⟩
    exact ⟨key, ⟨value, pair, hpair, hkind, hkey, hvalue⟩, hlayout⟩
  · rintro ⟨key, ⟨value, pair, hpair, hkind, hkey, hvalue⟩, hlayout⟩
    exact ⟨pair, hpair, hkind, ⟨value, hvalue⟩, key, hkey, hlayout⟩

/-- The rule on layout judges a call by the argument behind its targets. -/
theorem layoutAnimation_ne_nil_iff (depth : ℕ)
    (h : Structure.animationCall? scope call = some (object, method)) :
    Structure.layoutAnimation.check scope depth call ≠ [] ↔
      ∃ vars ∈ Structure.animationVars? call method, AnimatesLayout scope vars := by
  simp only [Structure.layoutAnimation, h]
  cases Structure.animationVars? call method with
  | none => simp
  | some vars => simp [animatesLayout_iff]

theorem tweenPairs_eq (h : Structure.animationCall? scope call = some (object, method)) :
    DesignToken.tweenPairs scope call = (endingObject? call).toList.flatMap fun vars =>
      (vars.parts.filter (·.kind = .pair)).filterMap fun p =>
        (scope.file.propertyKey? p).map fun key => (key, p) := by
  unfold DesignToken.tweenPairs endingObject? arguments
  rw [h]
  cases call.child? .arguments with
  | none => simp
  | some all =>
    cases hlast : all.parts.getLast? with
    | none => simp [hlast]
    | some last => by_cases hkind : last.unwrapped.kind = .object <;>
      simp [hlast, hkind, Option.filter]

/-- The rules on literals judge a call by its last argument. -/
theorem tweenRule_ne_nil_iff (rule : Rule) (key : String) (kind : Kind)
    (message : String) (depth : ℕ)
    (h : Structure.animationCall? scope call = some (object, method)) :
    (DesignToken.tweenRule rule key kind message).check scope depth call ≠ [] ↔
      ∃ vars ∈ endingObject? call, HasLiteral scope.file key kind vars := by
  simp only [DesignToken.tweenRule, tweenPairs_eq h]
  cases endingObject? call with
  | none => simp
  | some vars => simp [HasLiteral, and_assoc]

theorem inside_unwrapped (h : Inside left right n) : Inside left right n.unwrapped := by
  rw [unwrapped]
  generalize n.stop = fuel
  induction fuel generalizing n with
  | zero => exact h
  | succ fuel ih =>
    rw [unwrapped.go]
    split_ifs
    · split
      · next inner _ hparts =>
        exact ih (h.child (List.mem_of_mem_filter (hparts ▸ List.mem_cons_self)))
      · exact h
    · exact h

/-- The arguments of a call begin one after the other. -/
theorem pairwise_arguments (hp : p ∈ places [] scope.file.root) :
    (arguments p.node).Pairwise fun a b => a.start < b.start := by
  rw [arguments]
  cases hall : p.node.child? .arguments with
  | none => exact .nil
  | some all =>
    obtain ⟨left, right, hordered⟩ := scope.file.exists_orderedAll hp
    have hinside := inside_of_orderedAll hordered all (List.mem_of_find?_eq_some hall)
    have hparts := ordered_eq all ▸ hinside.ordered
    rw [Option.toList_some, List.flatMap_singleton, List.pairwise_map]
    refine ((pairwise_of_orderedAll hparts).sublist List.filter_sublist).imp_of_mem
      fun {a b} ha hb hab => ?_
    have hown (c : Node) (hc : c ∈ all.parts) : Inside c.start c.stop c.unwrapped :=
      inside_unwrapped (inside_of_orderedAll hparts c (List.mem_of_mem_filter hc)).own
    calc a.unwrapped.start < a.unwrapped.stop := (hown a ha).start_lt
      _ ≤ a.stop := (hown a ha).le_right
      _ ≤ b.start := hab
      _ ≤ b.unwrapped.start := (hown b hb).left_le

theorem nodup_arguments (hp : p ∈ places [] scope.file.root) : (arguments p.node).Nodup :=
  (pairwise_arguments hp).imp fun hab => ne_of_apply_ne start hab.ne

/-- In a list without repetitions, the entry with the number `i` and the last one, each if it passes
a test, are both the last one to pass it just if no entry does, or the last one does and has this
number. -/
theorem picks_agree_iff {α : Type*} {test : α → Bool} {l : List α} {i : ℕ} (h : l.Nodup) :
    l[i]?.filter test = (l.filter test).getLast? ∧
      l.getLast?.filter test = (l.filter test).getLast? ↔
      (l.filter test).getLast? = none ∨ l.length = i + 1 ∧
        (l.getLast?.filter test).isSome = true := by
  rcases List.eq_nil_or_concat l with rfl | ⟨init, last, rfl⟩
  · simp
  rw [List.concat_eq_append] at h ⊢
  cases hlast : test last with
  | true =>
    have hnumber : (init ++ [last])[i]? = some last ↔ i = init.length := by
      refine ⟨fun hi => ?_, fun hi => by simp [hi]⟩
      have hend : (init ++ [last])[init.length]? = some last := by simp
      obtain ⟨hlt, -⟩ := List.getElem?_eq_some_iff.1 hi
      exact (List.getElem?_inj hlt h).1 (hi.trans hend.symm)
    have hpicked : (init ++ [last])[i]?.filter test = some last ↔ i = init.length := by
      rw [Option.filter_eq_some_iff, hnumber, and_iff_left hlast]
    simp [List.filter_append, hlast, hpicked, Option.filter_some, eq_comm]
  | false =>
    -- The last entry is not picked, so the picks agree only if there is none.
    have hending : (init ++ [last]).getLast?.filter test = none := by
      simp [Option.filter_some, hlast]
    rw [hending]
    constructor
    · rintro ⟨-, hnone⟩
      exact .inl hnone.symm
    · rintro (hnone | ⟨-, hsome⟩)
      · refine ⟨?_, hnone.symm⟩
        rw [hnone, Option.filter_eq_none_iff]
        rw [List.getLast?_eq_none_iff, List.filter_eq_nil_iff] at hnone
        exact fun a ha => hnone a (List.mem_of_getElem? ha)
      · contradiction

/-- A call is reported for what the argument behind its targets and its last argument hold. These
are its last object, on which all rules then agree, just if it has none or ends with it right behind
the targets. -/
theorem rules_judge_last_object_iff (depth : ℕ) (hp : p ∈ places [] scope.file.root)
    (hcall : Structure.animationCall? scope p.node = some (object, method)) :
    (Structure.layoutAnimation.check scope depth p.node ≠ [] ↔
        ∃ vars ∈ Structure.animationVars? p.node method, AnimatesLayout scope vars) ∧
      (DesignToken.hardcodedDuration.check scope depth p.node ≠ [] ↔
        ∃ vars ∈ endingObject? p.node, HasLiteral scope.file "duration" .number vars) ∧
      (DesignToken.hardcodedEasing.check scope depth p.node ≠ [] ↔
        ∃ vars ∈ endingObject? p.node, HasLiteral scope.file "ease" .string vars) ∧
      (Structure.animationVars? p.node method = lastObject? p.node ∧
        endingObject? p.node = lastObject? p.node ↔
        lastObject? p.node = none ∨
          (arguments p.node).length = targets method + 1 ∧
            (endingObject? p.node).isSome = true) := by
  refine ⟨layoutAnimation_ne_nil_iff depth hcall, tweenRule_ne_nil_iff _ _ _ _ depth hcall,
    tweenRule_ne_nil_iff _ _ _ _ depth hcall, ?_⟩
  rw [animationVars?_eq]
  exact picks_agree_iff (nodup_arguments hp)

/-- A call that ends with what it animates. -/
def fullTween : String := "gsap.fromTo(el, \x7b x: 0 \x7d, (\x7b width: 1, duration: 2 \x7d));"

theorem rules_judge_fullTween : ∃ file, SourceFile.parse ⟨"Hero.tsx"⟩ fullTween = .ok file ∧
    ∃ p ∈ places [] file.root,
      Structure.animationCall? ⟨file, .default, .default⟩ p.node = some ("gsap", "fromTo") ∧
      ((arguments p.node).length = 3 ∧ (endingObject? p.node).isSome = true) ∧
      Structure.animationVars? p.node "fromTo" = lastObject? p.node ∧
      endingObject? p.node = lastObject? p.node := by
  have hrun : (SourceFile.parse ⟨"Hero.tsx"⟩ fullTween).toOption.any (fun file : SourceFile =>
      ∃ p ∈ places [] file.root,
      Structure.animationCall? ⟨file, .default, .default⟩ p.node = some ("gsap", "fromTo") ∧
      (arguments p.node).length = 3 ∧ (endingObject? p.node).isSome = true) = true := by
    decide +kernel
  obtain ⟨file, hfile, h⟩ := exists_ok_of_any hrun
  obtain ⟨p, hp, hcall, hends⟩ := of_decide_eq_true h
  exact ⟨file, hfile, p, hp, hcall, hends,
    (rules_judge_last_object_iff 0 hp hcall).2.2.2.2 (.inr hends)⟩

/-- A duration in front of another argument is not found, nor is a layout that takes the place of
the target. -/
theorem unnoticed_last_objects :
    (∃ file, SourceFile.parse ⟨"Hero.tsx"⟩ "gsap.to(el, \x7b duration: 2 \x7d, 1);" = .ok file ∧
      (∃ p ∈ places [] file.root,
        (Structure.animationCall? ⟨file, .default, .default⟩ p.node).isSome = true ∧
        ∃ vars ∈ lastObject? p.node, HasLiteral file "duration" .number vars) ∧
      (DesignToken.check .default .default file).1 = []) ∧
    ∃ file, SourceFile.parse ⟨"Hero.tsx"⟩ "gsap.to(\x7b width: 1 \x7d);" = .ok file ∧
      (∃ p ∈ places [] file.root,
        (Structure.animationCall? ⟨file, .default, .default⟩ p.node).isSome = true ∧
        ∃ vars ∈ lastObject? p.node, AnimatesLayout ⟨file, .default, .default⟩ vars) ∧
      Structure.check .default .default file = [] := by
  have hduration :
      (SourceFile.parse ⟨"Hero.tsx"⟩ "gsap.to(el, \x7b duration: 2 \x7d, 1);").toOption.any
      (fun file : SourceFile => (∃ p ∈ places [] file.root,
        (Structure.animationCall? ⟨file, .default, .default⟩ p.node).isSome = true ∧
          ∃ vars ∈ lastObject? p.node, HasLiteral file "duration" .number vars) ∧
        (DesignToken.check .default .default file).1 = []) = true := by
    decide +kernel
  have hlayout : (SourceFile.parse ⟨"Hero.tsx"⟩ "gsap.to(\x7b width: 1 \x7d);").toOption.any
      (fun file : SourceFile => (∃ p ∈ places [] file.root,
        (Structure.animationCall? ⟨file, .default, .default⟩ p.node).isSome = true ∧
          ∃ vars ∈ lastObject? p.node, AnimatesLayout ⟨file, .default, .default⟩ vars) ∧
        Structure.check .default .default file = []) = true := by
    decide +kernel
  obtain ⟨file, hfile, h⟩ := exists_ok_of_any hduration
  obtain ⟨other, hother, k⟩ := exists_ok_of_any hlayout
  exact ⟨⟨file, hfile, of_decide_eq_true h⟩, other, hother, of_decide_eq_true k⟩

end QualityGate.Animation
