import QualityGate.Proofs.Findings.Project
import QualityGate.Proofs.Violation.Within
import Mathlib.Order.Lattice.Nat

/-!
Higher limits. Every limit is compared with a number that does not depend on limits, so under higher
limits each check finds nothing that it does not find under the lower ones, messages apart, and
counts the same.
-/
namespace QualityGate

open Syntax Violation

/-- No limit of the first is above that of the second. -/
structure Thresholds.AtMost (strict loose : Thresholds) : Prop where
  maxSectionChildren : strict.maxSectionChildren ≤ loose.maxSectionChildren
  maxComponentDepth : strict.maxComponentDepth ≤ loose.maxComponentDepth
  maxFunctionNesting : strict.maxFunctionNesting ≤ loose.maxFunctionNesting
  maxPropDrilling : strict.maxPropDrilling ≤ loose.maxPropDrilling
  maxContainerVariants : strict.maxContainerVariants ≤ loose.maxContainerVariants
  maxSpacingVariants : strict.maxSpacingVariants ≤ loose.maxSpacingVariants
  maxGridCols : strict.maxGridCols ≤ loose.maxGridCols
  maxFontSizes : strict.maxFontSizes ≤ loose.maxFontSizes
  bodyTextMaxRank : strict.bodyTextMaxRank ≤ loose.bodyTextMaxRank
  maxImportDepth : strict.maxImportDepth ≤ loose.maxImportDepth
  maxImportFanIn : strict.maxImportFanIn ≤ loose.maxImportFanIn

def Settings.withThresholds (settings : Settings) (limits : Thresholds) : Settings :=
  { settings with thresholds := limits }

variable {settings : Settings} {loose : Thresholds} {tables : Tables} {file : SourceFile}

namespace NodeRule

variable {checks : List NodeRule} {R : List Violation → List Violation → Prop} {s t : Scope}

theorem rel_breaches (hR : Additive R)
    (h : ∀ c ∈ checks, ∀ depth n, R (c.check s depth n) (c.check t depth n)) (depth : ℕ)
    (n : Node) :
    R (breaches checks s depth n) (breaches checks t depth n) :=
  hR.flatMap fun c hc => h c (List.mem_of_mem_filter hc) depth n

/-- At the same places related lists are found where that is so at every node. -/
theorem rel_flatMap (hR : Additive R)
    (h : ∀ c ∈ checks, ∀ depth n, R (c.check s depth n) (c.check t depth n))
    (ps : List Node.Place) :
    R (ps.flatMap (breachesAt checks s)) (ps.flatMap (breachesAt checks t)) :=
  hR.flatMap fun _ _ => rel_breaches hR h _ _

end NodeRule

namespace Structure

theorem within_maxSectionChildren (h : settings.thresholds.AtMost loose) (depth : ℕ) (n : Node) :
    Within (maxSectionChildren.check ⟨file, settings.withThresholds loose, tables⟩ depth n)
      (maxSectionChildren.check ⟨file, settings, tables⟩ depth n) := by
  simp only [maxSectionChildren]
  split
  · exact .nil
  · split
    · exact .nil
    · refine .ite (fun hc => ?_) (.singleton rfl)
      rw [Bool.and_eq_true, decide_eq_true_eq] at hc ⊢
      exact ⟨hc.1, h.maxSectionChildren.trans_lt hc.2⟩

theorem within_componentDepth (h : settings.thresholds.AtMost loose) (depth : ℕ) (n : Node) :
    Within (componentDepth.check ⟨file, settings.withThresholds loose, tables⟩ depth n)
      (componentDepth.check ⟨file, settings, tables⟩ depth n) :=
  .ite h.maxComponentDepth.trans_lt (.singleton rfl)

/-- All other rules on markup have no limit. -/
theorem within_check (h : settings.thresholds.AtMost loose) :
    Within (check (settings.withThresholds loose) tables file) (check settings tables file) := by
  rw [check, check, NodeRule.run_eq, NodeRule.run_eq]
  refine .inFile (NodeRule.rel_flatMap Within.additive (fun c hc depth n => ?_) _) file.path
  simp only [rules, List.mem_cons, List.not_mem_nil, or_false] at hc
  rcases hc with rfl | rfl | rfl | rfl | rfl | rfl | rfl | rfl | rfl
  any_goals exact .refl _
  · exact within_maxSectionChildren h depth n
  · exact within_componentDepth h depth n

end Structure

/-- No rule on tokens has a limit. -/
theorem DesignToken.check_withThresholds :
    check (settings.withThresholds loose) tables file = check settings tables file := by
  have hfound (ps : List Node.Place) :
      ps.flatMap (NodeRule.breachesAt rules ⟨file, settings.withThresholds loose, tables⟩) =
        ps.flatMap (NodeRule.breachesAt rules ⟨file, settings, tables⟩) := by
    refine NodeRule.rel_flatMap Additive.eq (fun c hc depth n => ?_) ps
    simp only [rules, List.mem_cons, List.not_mem_nil, or_false] at hc
    rcases hc with rfl | rfl | rfl <;> rfl
  simp only [check, NodeRule.run_eq, hfound]

namespace UtilityClass

variable {strict : Thresholds}

theorem within_exceeding {v w : Violation} (hs : v.spot = w.spot) {found low high : ℕ}
    (h : low ≤ high) :
    Within (exceeding found high v) (exceeding found low w) :=
  .ite h.trans_lt (.singleton hs)

theorem within_denseGrid {low high : ℕ} (h : low ≤ high) (origin : ClassString) (t : Token) :
    Within (denseGrid high origin t) (denseGrid low origin t) := by
  unfold denseGrid
  split
  · exact .ite h.trans_lt (.singleton rfl)
  · exact .nil

theorem within_checkToken (h : strict.AtMost loose) (origin : ClassString) (t : Token) :
    Within (checkToken loose origin t) (checkToken strict origin t) :=
  .append (.refl _) (within_denseGrid h.maxGridCols origin t)

theorem within_checkHierarchy (h : strict.AtMost loose) (e : Entry) :
    Within (checkHierarchy loose tables e) (checkHierarchy strict tables e) := by
  unfold checkHierarchy
  split
  · refine .ite (fun hc => ?_) (.singleton rfl)
    rw [Bool.and_eq_true, decide_eq_true_eq] at hc ⊢
    exact ⟨hc.1, h.bodyTextMaxRank.trans_lt hc.2⟩
  · exact .nil

theorem within_check (h : settings.thresholds.AtMost loose) (classes : List ClassString) :
    Within (check (settings.withThresholds loose) tables classes).1
      (check settings tables classes).1 := by
  simp only [check]
  refine .append (.append (.append (.append ?_ ?_) ?_) ?_) ?_
  · exact within_exceeding (by rfl) h.maxContainerVariants
  · exact within_exceeding (by rfl) h.maxSpacingVariants
  · exact .flatMap fun e _ => .flatMap fun t _ => within_checkToken h e.origin t
  · exact within_exceeding (by rfl) h.maxFontSizes
  · exact .flatMap fun e _ => within_checkHierarchy h e

theorem ClassString.ofFile_withThresholds :
    ofFile file (settings.withThresholds loose) tables = ofFile file settings tables :=
  rfl

theorem within_checkFile (h : settings.thresholds.AtMost loose) :
    Within (checkFile (settings.withThresholds loose) tables file).1
      (checkFile settings tables file).1 := by
  simp only [checkFile, ClassString.ofFile_withThresholds]
  exact (within_check h _).inFile file.path

/-- The counters do not show the limits. -/
theorem checkFile_withThresholds : (checkFile (settings.withThresholds loose) tables file).2 =
    (checkFile settings tables file).2 := by
  simp only [checkFile, check, ClassString.ofFile_withThresholds]

end UtilityClass

theorem FileAnalysis.within_violations (h : settings.thresholds.AtMost loose) :
    Within (FileAnalysis.of (settings.withThresholds loose) tables file).violations
      (FileAnalysis.of settings tables file).violations := by
  refine .append (.append ?_ ?_) ?_
  · exact Structure.within_check h
  · exact UtilityClass.within_checkFile h
  · simp only [FileAnalysis.of, DesignToken.check_withThresholds]
    exact .refl _

namespace Nesting

theorem within_check (h : settings.thresholds.AtMost loose) :
    Within (check (settings.withThresholds loose) file) (check settings file) := by
  have hdeep (p : Node.Place) (hp : isDeep loose.maxFunctionNesting p = true) :
      isDeep settings.thresholds.maxFunctionNesting p = true := by
    rw [isDeep, Bool.and_eq_true, decide_eq_true_iff] at hp ⊢
    exact ⟨hp.1, h.maxFunctionNesting.trans_lt hp.2⟩
  rw [check_eq, check_eq, Within, List.map_map, List.map_map]
  exact ((List.monotone_filter_right _ hdeep).map _).subperm

end Nesting

namespace PropDrilling

theorem within_check (h : settings.thresholds.AtMost loose) :
    Within (check (settings.withThresholds loose) file) (check settings file) := by
  let spotAt (p : Location) := (Violation.warning .noPropDrilling "").located p |>.spot
  have hspot (max : ℕ) (es : List (Location × ℕ)) :
      (es.map (drilled max)).map spot = (es.map (·.1)).map spotAt := by
    rw [List.map_map, List.map_map]
    rfl
  -- A place stays where its level exceeds the lower limit as well, and each place is there once.
  have hplaces : (worst loose.maxPropDrilling (tags file)).map (·.1) ⊆
      (worst settings.thresholds.maxPropDrilling (tags file)).map (·.1) := by
    intro p hp
    obtain ⟨e, he, hlt, hpe⟩ := mem_places_worst.1 hp
    exact mem_places_worst.2 ⟨e, he, h.maxPropDrilling.trans_lt hlt, hpe⟩
  obtain ⟨l, hperm, hsub⟩ := List.subperm_of_subset (nodup_places_worst _ _) hplaces
  rw [check_eq, check_eq, Within, hspot, hspot]
  exact ⟨l.map spotAt, hperm.map spotAt, hsub.map spotAt⟩

end PropDrilling

theorem Semantic.within_check (h : settings.thresholds.AtMost loose) (program : Program) :
    Within (check (settings.withThresholds loose) tables program)
      (check settings tables program) := by
  refine .append (.refl _) (.flatMap fun file _ => .inFile ?_ file.path)
  refine .append (.append (.append (.append (.refl _) ?_) ?_) (.refl _)) (.refl _)
  · exact Nesting.within_check h
  · exact PropDrilling.within_check h

namespace Graph

variable (disk : Disk) (resolver : Resolver) (root : Path) (files : List SourceFile)

theorem within_fanInBreaches {low high : ℕ} (h : low ≤ high) (g : Graph) :
    Within (fanInBreaches high g) (fanInBreaches low g) := by
  have hkept : (g.fanIn.filter fun e => e.2 > high).Sublist (g.fanIn.filter fun e => e.2 > low) :=
    List.monotone_filter_right _ fun e he =>
      decide_eq_true (h.trans_lt (of_decide_eq_true he))
  exact .of_sublist (hkept.map _)

theorem within_check (h : settings.thresholds.AtMost loose) :
    Within (check disk (settings.withThresholds loose) resolver root files).1
      (check disk settings resolver root files).1 := by
  refine .append (.append (.append (.append (.refl _) ?_) (.refl _)) (.refl _)) ?_
  · exact .ite h.maxImportDepth.trans_lt (.singleton rfl)
  · exact within_fanInBreaches h.maxImportFanIn _

/-- The counters do not show the limits. -/
theorem check_withThresholds : (check disk (settings.withThresholds loose) resolver root files).2 =
    (check disk settings resolver root files).2 :=
  rfl

end Graph

end QualityGate
