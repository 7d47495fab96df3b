import QualityGate.FileAnalysis
import QualityGate.Proofs.Violation
import QualityGate.Proofs.Walks

/-!
What the checks on component files find: every rule on nodes finds breaches of its own name only,
and a walk over a file finds what its rules find.
-/
namespace QualityGate

open Syntax Violation

/-- A rule on nodes finds breaches of one rule only. -/
def NodeRule.Finds (check : NodeRule) (rule : Rule) : Prop :=
  ∀ scope depth n, Findings (· = rule) (check.check scope depth n)

namespace NodeRule

variable {checks : List NodeRule} {rules : Rule → Prop}

theorem findings_breaches (h : ∀ c ∈ checks, ∃ rule, rules rule ∧ c.Finds rule) (scope : Scope)
    (depth : Nat) (n : Node) : Findings rules (breaches checks scope depth n) := by
  refine .flatMap fun c hc => ?_
  obtain ⟨rule, hr, hf⟩ := h c (List.mem_of_mem_filter hc)
  exact (hf scope depth n).among hr

theorem findings_run (h : ∀ c ∈ checks, ∃ rule, rules rule ∧ c.Finds rule) (scope : Scope) :
    Findings rules (run checks scope) := by
  rw [run_eq]
  exact .inFile (.flatMap fun _ _ => findings_breaches h scope _ _) scope.file.path

end NodeRule

namespace Structure

theorem finds_inlineStyles : inlineStyles.Finds .noInlineStyles := fun scope depth n => by
  simp only [inlineStyles]
  split
  · exact .ite .nil (.singleton found_at)
  · exact .nil

theorem finds_hardcodedColors : hardcodedColors.Finds .noHardcodedColors := fun scope depth n => by
  simp only [hardcodedColors]
  split
  · exact .ite (.singleton found_at) .nil
  · exact .nil

theorem finds_hardcodedPx : hardcodedPx.Finds .noHardcodedPx := fun scope depth n => by
  simp only [hardcodedPx]
  split
  · split
    · exact .ite .nil (.singleton found_at)
    · exact .nil
  · exact .nil

theorem finds_layoutAnimation : layoutAnimation.Finds .noLayoutAnimation := fun scope depth n => by
  simp only [layoutAnimation]
  split
  · exact .nil
  · exact .ite .nil (.singleton found_at)

theorem finds_animationFrom : animationFrom.Finds .noGsapFrom := fun scope depth n => by
  simp only [animationFrom]
  split
  · exact .singleton found_at
  · exact .nil

theorem finds_transitionAll : transitionAll.Finds .noTransitionAll := fun _ _ _ =>
  .ite (.singleton found_at) .nil

theorem finds_sectionNeedsId : sectionNeedsId.Finds .sectionNeedsId := fun scope depth n => by
  simp only [sectionNeedsId]
  split
  · exact .ite (.singleton found_at) .nil
  · exact .nil

theorem finds_maxSectionChildren :
    maxSectionChildren.Finds .maxChildrenPerSection := fun scope depth n => by
  simp only [maxSectionChildren]
  split
  · exact .nil
  · split
    · exact .nil
    · exact .ite (.singleton found_at) .nil

theorem finds_componentDepth : componentDepth.Finds .componentDepthCheck := fun _ _ _ =>
  .ite (.singleton found_at) .nil

theorem findings_check (settings : Settings) (tables : Tables) (file : SourceFile) :
    Findings (·.analyzer = "structural") (check settings tables file) := by
  refine NodeRule.findings_run (fun c hc => ?_) _
  simp only [rules, List.mem_cons, List.not_mem_nil, or_false] at hc
  rcases hc with rfl | rfl | rfl | rfl | rfl | rfl | rfl | rfl | rfl
  · exact ⟨_, rfl, finds_inlineStyles⟩
  · exact ⟨_, rfl, finds_hardcodedColors⟩
  · exact ⟨_, rfl, finds_hardcodedPx⟩
  · exact ⟨_, rfl, finds_layoutAnimation⟩
  · exact ⟨_, rfl, finds_animationFrom⟩
  · exact ⟨_, rfl, finds_transitionAll⟩
  · exact ⟨_, rfl, finds_sectionNeedsId⟩
  · exact ⟨_, rfl, finds_maxSectionChildren⟩
  · exact ⟨_, rfl, finds_componentDepth⟩

end Structure

namespace UtilityClass

namespace ClassString

variable {file : SourceFile} {settings : Settings} {tables : Tables} {c : ClassString}

theorem counted_ofLiteral? {element : Option String} {n : Node}
    (h : ofLiteral? file element n = some c) :
    c.place.Counted := by
  obtain ⟨value, -, rfl⟩ := Option.map_eq_some_iff.1 h
  exact file.counted_location n

theorem counted_ofTag {tag : Node} (h : c ∈ ofTag file tables tag) : c.place.Counted := by
  obtain ⟨attr, -, ha⟩ := List.mem_filterMap.1 h
  obtain ⟨value, -, hv⟩ := Option.bind_eq_some_iff.1 ha
  simp only at hv
  split_ifs at hv
  · obtain ⟨literal, -, hl⟩ := Option.bind_eq_some_iff.1 hv
    exact counted_ofLiteral? hl
  · exact counted_ofLiteral? hv

theorem counted_ofCall {call : Node.Place} (h : c ∈ ofCall file settings tables call) :
    c.place.Counted := by
  unfold ofCall at h
  split at h
  · split_ifs at h
    · obtain ⟨n, -, hn⟩ := List.mem_filterMap.1 h
      exact counted_ofLiteral? hn
    · simp at h
  · simp at h

theorem counted_of_mem_ofFile (h : c ∈ ofFile file settings tables) : c.place.Counted := by
  obtain ⟨p, -, hp⟩ := List.mem_flatMap.1 h
  split_ifs at hp
  · exact counted_ofTag hp
  · exact counted_ofCall hp
  · simp at hp

end ClassString

variable {limits : Thresholds} {tables : Tables}

theorem findings_exceeding {rules : Rule → Prop} {breach : Violation} (h : breach.Found rules)
    (found limit : Nat) : Findings rules (exceeding found limit breach) :=
  .ite (.singleton h) .nil

def freeValue (origin : ClassString) (t : Token) : List Violation :=
  if t.arbitrary then
    [(Violation.error .noArbitraryValues
      ("Arbitrary value detected: " ++ t.raw ++
        ". Use design tokens instead.")).located origin.place]
  else []

def denseGrid (limit : Nat) (origin : ClassString) (t : Token) : List Violation :=
  match gridColumns? t with
  | some n =>
    if n > limit then
      [(Violation.warning .maxGridCols
        ("Grid too dense (" ++ toString n ++ " columns). Consider reducing to "
          ++ toString limit ++ " or fewer columns.")).located origin.place]
    else []
  | none => []

theorem checkToken_eq (origin : ClassString) (t : Token) :
    checkToken limits origin t = freeValue origin t ++ denseGrid limits.maxGridCols origin t :=
  rfl

theorem findings_freeValue {origin : ClassString} (h : origin.place.Counted) (t : Token) :
    Findings (· = .noArbitraryValues) (freeValue origin t) :=
  .ite (.singleton (found_breach.located h)) .nil

theorem findings_denseGrid {limit : Nat} {origin : ClassString} (h : origin.place.Counted)
    (t : Token) :
    Findings (· = .maxGridCols) (denseGrid limit origin t) := by
  unfold denseGrid
  split
  · exact .ite (.singleton (found_breach.located h)) .nil
  · exact .nil

theorem findings_checkToken {origin : ClassString} (h : origin.place.Counted) (t : Token) :
    Findings (fun r => r = .noArbitraryValues ∨ r = .maxGridCols) (checkToken limits origin t) := by
  rw [checkToken_eq]
  exact ((findings_freeValue h t).among (.inl rfl)).append
    ((findings_denseGrid h t).among (.inr rfl))

theorem findings_checkHierarchy {e : Entry} (h : e.origin.place.Counted) :
    Findings (· = .textHierarchyCheck) (checkHierarchy limits tables e) := by
  unfold checkHierarchy
  split
  · exact .ite (.singleton (found_breach.located h)) .nil
  · exact .nil

theorem counted_entries {classes : List ClassString} (h : ∀ c ∈ classes, c.place.Counted) :
    ∀ e ∈ entries tables classes, e.origin.place.Counted :=
  List.forall_mem_map.2 h

theorem findings_check (settings : Settings) {classes : List ClassString}
    (h : ∀ c ∈ classes, c.place.Counted) :
    Findings (·.analyzer = "utility-classes") (check settings tables classes).1 := by
  have hentry := @counted_entries tables _ h
  simp only [check]
  refine .append (.append (.append (.append ?_ ?_)
    (.flatMap fun e he => .flatMap fun t _ => ?_)) ?_) (.flatMap fun e he => ?_)
  · exact (findings_exceeding found_breach _ _).among rfl
  · exact (findings_exceeding found_breach _ _).among rfl
  · exact (findings_checkToken (hentry e he) t).mono fun r hr => by rcases hr with rfl | rfl <;> rfl
  · exact (findings_exceeding found_breach _ _).among rfl
  · exact (findings_checkHierarchy (hentry e he)).among rfl

theorem findings_checkFile (settings : Settings) (file : SourceFile) :
    Findings (·.analyzer = "utility-classes") (checkFile settings tables file).1 := by
  simp only [checkFile]
  exact (findings_check settings fun _ => ClassString.counted_of_mem_ofFile).inFile file.path

end UtilityClass

namespace DesignToken

theorem finds_tweenRule {rule : Rule} {key : String} {kind : Kind} {message : String}
    (h : rule.severity = .error) : (tweenRule rule key kind message).Finds rule := fun _ _ _ =>
  .map fun _ _ => error_eq_breach h ▸ found_at

theorem finds_hardcodedColor : hardcodedColor.Finds .hardcodedColorInJsx := fun scope depth n => by
  simp only [hardcodedColor]
  split
  · exact .singleton found_at
  · exact .nil

theorem findings_check (settings : Settings) (tables : Tables) (file : SourceFile) :
    Findings (fun r => r = .hardcodedDuration ∨ r = .hardcodedEasing ∨ r = .hardcodedColorInJsx)
      (check settings tables file).1 := by
  refine NodeRule.findings_run (fun c hc => ?_) _
  simp only [rules, List.mem_cons, List.not_mem_nil, or_false] at hc
  rcases hc with rfl | rfl | rfl
  · exact ⟨_, .inl rfl, finds_tweenRule rfl⟩
  · exact ⟨_, .inr (.inl rfl), finds_tweenRule rfl⟩
  · exact ⟨_, .inr (.inr rfl), finds_hardcodedColor⟩

theorem findings_unused (settings : Settings) (files : List SourceFile) :
    Findings (· = .tokenDefinedNotUsed) (unused settings files) := by
  unfold unused
  split
  · exact .nil
  · exact .map fun name _ => found_breach

end DesignToken

/-- No check on component files looks at imports. -/
theorem FileAnalysis.findings_violations (settings : Settings) (tables : Tables)
    (file : SourceFile) :
    Findings (fun r => r.analyzer = "structural" ∨ r.analyzer = "utility-classes" ∨
        r.analyzer = "tokens")
      (FileAnalysis.of settings tables file).violations := by
  refine .append (.append ?_ ?_) ?_
  · exact (Structure.findings_check settings tables file).mono fun r hr => .inl hr
  · exact (UtilityClass.findings_checkFile settings file).mono fun r hr => .inr (.inl hr)
  · refine (DesignToken.findings_check settings tables file).mono fun r hr => .inr (.inr ?_)
    rcases hr with rfl | rfl | rfl <;> rfl

theorem Syntax.ParseFailure.found_breach (path : Path) (failure : ParseFailure)
    (h : ∀ place, failure.place? = some place → place.Counted) :
    (failure.breach path).Found (· = .parseError) := by
  unfold breach
  split
  · next place hp => exact ((Violation.found_breach).inFile path).located (h place hp)
  · exact (Violation.found_breach).inFile path

end QualityGate
