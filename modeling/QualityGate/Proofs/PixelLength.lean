import QualityGate.Proofs.Findings.Counters
import QualityGate.Proofs.Syntax.Literals
import QualityGate.Proofs.Syntax.Templates
import Mathlib.Data.List.TakeWhile
import Mathlib.Data.Nat.Digits.Defs

/-!
Lengths in pixels among the spacings of a style. A length is a number in decimal digits of any
scripts with the unit behind it. It is a breach unless its digits are those of ASCII and denote zero
or one; a number that does not fit into a machine word is as good as any other.
-/
namespace QualityGate.Structure

open Syntax Node Violation

/-- The ASCII digits denote the number, the last digit being the one of the units. -/
def Denotes (digits : List Char) (n : ℕ) : Prop :=
  (∀ c ∈ digits, c.isDigit = true) ∧ Nat.ofDigits 10 (digits.reverse.map fun c => c.toNat - 48) = n

/-- A length in pixels other than zero and one. -/
def IsHardcoded (value : String) : Prop :=
  ∃ digits : List Char, digits ≠ [] ∧ (∀ c ∈ digits, Text.isDecimal c = true) ∧
    value.toList = digits ++ ['p', 'x'] ∧ ¬ ∃ n ≤ 1, Denotes digits n

/-- Key and value of a pair that sets a spacing to a literal. -/
def spacing? (scope : Scope) (n : Node) : Option (String × String) := do
  guard (n.kind = .pair)
  let key ← scope.file.propertyKey? n
  guard (key ∈ scope.tables.spacingStyleProps)
  let value ← (n.child? .value).bind scope.file.literalValue?
  return (key, value)

variable {scope : Scope} {digits : List Char} {value : String} {n : Node}

/-- A spacing is set by a pair with a key of the table, to what a string or a template says. -/
theorem spacing?_eq_some_iff {p : Place} (hp : p ∈ places [] scope.file.root) {key : String} :
    spacing? scope p.node = some (key, value) ↔
      p.node.kind = .pair ∧ scope.file.propertyKey? p.node = some key ∧
        key ∈ scope.tables.spacingStyleProps ∧
        ∃ literal, p.node.child? .value = some literal ∧ scope.file.Says literal value.toList := by
  have hsteps : spacing? scope p.node = some (key, value) ↔
      p.node.kind = .pair ∧ scope.file.propertyKey? p.node = some key ∧
        key ∈ scope.tables.spacingStyleProps ∧
        ∃ literal, p.node.child? .value = some literal ∧
        scope.file.literalValue? literal = some value := by
    simp only [spacing?, Option.bind_eq_bind, Option.bind_eq_some_iff, Option.guard_eq_some',
      Option.pure_def, Option.some.injEq, Prod.mk.injEq]
    constructor
    · rintro ⟨-, hkind, key, hkey, -, hspacing, value, ⟨literal, hliteral, hvalue⟩, rfl, rfl⟩
      exact ⟨hkind, hkey, hspacing, literal, hliteral, hvalue⟩
    · rintro ⟨hkind, hkey, hspacing, literal, hliteral, hvalue⟩
      exact ⟨(), hkind, key, hkey, (), hspacing, value, ⟨literal, hliteral, hvalue⟩, rfl, rfl⟩
  rw [hsteps]
  refine and_congr_right fun hkind => and_congr_right fun _ =>
    and_congr_right fun _ => exists_congr fun literal =>
    and_congr_right fun hvalue => scope.file.literalValue?_eq_some_iff ?_
  have hinside := (SourceFile.inside_of_ne_program hp (by simp [hkind])).2
  exact (hinside.child (List.mem_of_find?_eq_some hvalue)).le_right

theorem number?_eq_some_iff {m : ℕ} (h : digits ≠ []) :
    Text.number? digits = some m ↔ Denotes digits m := by
  have hvalue : digits.foldl (fun m c => 10 * m + (c.toNat - 48)) 0 =
      Nat.ofDigits 10 (digits.reverse.map fun c => c.toNat - 48) := by
    simp [Nat.ofDigits_eq_foldr, List.foldl_map, Nat.add_comm]
  by_cases hascii : ∀ c ∈ digits, c.isDigit = true
  · have hall : digits.all Char.isDigit = true := List.all_eq_true.2 hascii
    rw [Denotes, and_iff_right hascii, ← hvalue]
    simp [Text.number?, h, hall]
  · have hall : digits.all Char.isDigit = false := by simpa using hascii
    simp [Text.number?, Denotes, hall, hascii]

/-- Words do not change which lengths are at most one pixel. -/
theorem isHairline_iff (h : digits ≠ []) :
    isHairline digits = true ↔ ∃ n ≤ 1, Denotes digits n := by
  have hword : Nat.pow 2 64 = 18446744073709551616 := by decide
  rw [isHairline, decide_eq_true_eq, amount, hword]
  simp only [← number?_eq_some_iff h]
  cases Text.number? digits with
  | none => simp
  | some m =>
    by_cases hfits : m < 18446744073709551616
    · simp [Option.filter_some, hfits]
    · have hlarge : ¬ m ≤ 1 := by omega
      simp [Option.filter_some, hfits, hlarge]

theorem pixels?_eq_some_iff {value : List Char} : pixels? value = some digits ↔
    digits ≠ [] ∧ (∀ c ∈ digits, Text.isDecimal c = true) ∧ value = digits ++ ['p', 'x'] := by
  simp only [pixels?]
  constructor
  · intro h
    split_ifs at h with hunit
    obtain rfl := Option.some.inj h
    simp only [Bool.and_eq_true, Bool.not_eq_true', List.isEmpty_eq_false_iff, beq_iff_eq] at hunit
    refine ⟨hunit.1, fun c hc => List.mem_takeWhile_imp hc, ?_⟩
    calc value = value.take (value.takeWhile Text.isDecimal).length ++
          value.drop (value.takeWhile Text.isDecimal).length := (List.take_append_drop _ _).symm
      _ = value.takeWhile Text.isDecimal ++ ['p', 'x'] := by
        rw [hunit.2, ← List.prefix_iff_eq_take.1 (List.takeWhile_prefix _)]
  · rintro ⟨hne, hdecimal, rfl⟩
    have hdigits : (digits ++ ['p', 'x']).takeWhile Text.isDecimal = digits := by
      rw [List.takeWhile_append_of_pos hdecimal]
      simp [show Text.isDecimal 'p' = false by decide]
    simp [hdigits, hne]

/-- The value is a breach just if it has digits that are no hairline. -/
theorem isHardcoded_iff : IsHardcoded value ↔
    (pixels? value.toList).any (fun digits => !isHairline digits) = true := by
  simp only [Option.any_eq_true, pixels?_eq_some_iff, IsHardcoded, and_assoc]
  refine exists_congr fun digits => and_congr_right fun hne =>
    and_congr_right fun _ => and_congr_right fun _ => ?_
  rw [← isHairline_iff hne, Bool.not_eq_true, Bool.not_eq_true']

instance : DecidablePred IsHardcoded := fun _ => decidable_of_iff' _ isHardcoded_iff

def pixelBreach (key value : String) : Violation :=
  .warning .noHardcodedPx ("Hardcoded pixel value \"" ++ value ++ "\" in " ++ key
    ++ ". Consider using design tokens or CSS variables.")

def pixelBreach? (scope : Scope) (n : Node) : Option Violation :=
  ((spacing? scope n).filter fun (_, value) => IsHardcoded value).map fun (key, value) =>
    (pixelBreach key value).located (scope.file.location n)

theorem hardcodedPx_eq (depth : ℕ) :
    (if hardcodedPx.interested n.kind then hardcodedPx.check scope depth n else []) =
      (pixelBreach? scope n).toList := by
  by_cases hkind : n.kind = .pair
  case neg => simp [hardcodedPx, pixelBreach?, spacing?, hkind, guard]
  simp only [hardcodedPx, pixelBreach?, spacing?, hkind, decide_true, if_true]
  cases scope.file.propertyKey? n with
  | none => rfl
  | some key =>
    by_cases hkey : key ∈ scope.tables.spacingStyleProps
    case neg =>
      cases (n.child? .value).bind scope.file.literalValue? with
      | none => simp [guard]
      | some value => simp [hkey, guard]
    cases (n.child? .value).bind scope.file.literalValue? with
    | none => simp [guard]
    | some value =>
      have hcode := @isHardcoded_iff value
      cases hpixels : pixels? value.toList with
      | none => simp_all [guard, Option.filter_some]
      | some digits => cases hline : isHairline digits <;>
        simp_all [guard, Option.filter_some, pixelBreach]

/-- Of the rules on markup only the one on lengths finds lengths. -/
theorem ofRule_noHardcodedPx_breaches (depth : ℕ) :
    ofRule .noHardcodedPx (NodeRule.breaches rules scope depth n) =
      (pixelBreach? scope n).toList := by
  have hsplit (checks : List NodeRule) : NodeRule.breaches checks scope depth n =
      checks.flatMap fun c => if c.interested n.kind then c.check scope depth n else [] := by
    induction checks with
    | nil => rfl
    | cons c checks ih =>
      rw [List.flatMap_cons, ← ih, NodeRule.breaches, NodeRule.breaches]
      split_ifs with hkind <;> simp [hkind]
  have hother {check : NodeRule} {rule : Rule} (h : check.Finds rule)
      (hr : ¬ Rule.noHardcodedPx = rule) : ofRule .noHardcodedPx
        (if check.interested n.kind then check.check scope depth n else []) = [] :=
    ofRule_eq_nil (.ite (h scope depth n) .nil) hr
  have hown : ofRule .noHardcodedPx
      (if hardcodedPx.interested n.kind then hardcodedPx.check scope depth n else []) =
        (pixelBreach? scope n).toList := by
    rw [ofRule_eq_self (.ite (finds_hardcodedPx scope depth n) .nil), hardcodedPx_eq]
  rw [hsplit, ofRule_flatMap]
  simp only [rules, List.flatMap_cons, List.flatMap_nil, hown, List.nil_append, List.append_nil,
    hother finds_inlineStyles (by decide), hother finds_hardcodedColors (by decide),
    hother finds_layoutAnimation (by decide), hother finds_animationFrom (by decide),
    hother finds_transitionAll (by decide), hother finds_sectionNeedsId (by decide),
    hother finds_maxSectionChildren (by decide), hother finds_componentDepth (by decide)]

/-- The lengths in pixels that are reported in a file are those of the pairs that set a spacing to a
literal which is decimal digits with the unit behind them, unless these are ASCII digits that denote
zero or one. Each comes once, where its pair stands. -/
theorem ofRule_noHardcodedPx_check (settings : Settings) (tables : Tables) (file : SourceFile) :
    ofRule .noHardcodedPx (check settings tables file) =
      (places [] file.root).filterMap fun p =>
        ((spacing? ⟨file, settings, tables⟩ p.node).filter fun (_, value) => IsHardcoded value).map
          fun (key, value) =>
            ((pixelBreach key value).located (file.location p.node)).inFile file.path := by
  rw [check, NodeRule.run_eq, ofRule_map_inFile, ofRule_flatMap]
  simp only [NodeRule.breachesAt, ofRule_noHardcodedPx_breaches, ← List.filterMap_eq_flatMap_toList,
    List.map_filterMap, pixelBreach?, Option.map_map]
  rfl

/-- Zeros in front, a number beyond all words, and the digits one and zero of another script. -/
example : ["0001px", "18446744073709551617px", "\u0661px", "\u0660px", "px", "2 px"].map
    (decide <| IsHardcoded ·) = [false, true, true, true, false, false] := by
  decide +kernel

end QualityGate.Structure
