import QualityGate.Proofs.Findings.Counters
import QualityGate.Proofs.Gate.CircularImports

/-!
Counters and violations of one report. The counters are rolled up on a way of their own, but they
tell the same as the list of violations: how many free values, literal colors and cycles there are,
and which limits are exceeded.
-/
namespace QualityGate

open Syntax Violation

namespace Graph

variable (disk : Disk) (settings : Settings) (resolver : Resolver) (root : Path)
  (files : List SourceFile)

theorem length_ofRule_circularDependency :
    (ofRule .circularDependency (check disk settings resolver root files).1).length =
      (check disk settings resolver root files).2.circularDependencies := by
  rw [ofRule_circularDependency_check, cycleBreaches, List.length_map]
  rfl

theorem ofRule_deepImportChain_check :
    ofRule .deepImportChain (check disk settings resolver root files).1 =
      chainBreach settings.thresholds.maxImportDepth
        (check disk settings resolver root files).2.maxImportDepth := by
  rw [check_eq, otherBreaches]
  simp only [ofRule_append]
  rw [ofRule_eq_nil (findings_cycleBreaches root _) (by decide),
    ofRule_eq_nil (findings_unusedPrimitives disk settings _ files) (by decide),
    ofRule_eq_nil (findings_overwritten _ _) (by decide),
    ofRule_eq_nil (findings_fanInBreaches _ _) (by decide),
    ofRule_eq_self (findings_chainBreach _ _)]
  simp only [List.nil_append, List.append_nil]
  rfl

theorem exceeds_deepImportChain :
    Exceeds .deepImportChain (check disk settings resolver root files).1
      settings.thresholds.maxImportDepth
      (check disk settings resolver root files).2.maxImportDepth := by
  rw [Exceeds, ofRule_deepImportChain_check, chainBreach]
  split_ifs with h
  · simpa using h
  · simpa using h

end Graph

namespace FileAnalysis

variable (settings : Settings) (tables : Tables) (file : SourceFile)

theorem ofRule_violations_of_utilityClasses {r : Rule} (h : r.analyzer = "utility-classes") :
    ofRule r (FileAnalysis.of settings tables file).violations =
      ofRule r (UtilityClass.checkFile settings tables file).1 := by
  have hmarkup :=
    ofRule_eq_nil (r := r) (Structure.findings_check settings tables file) (by simp [h])
  have htokens := ofRule_eq_nil (r := r) (DesignToken.findings_check settings tables file)
    (by rintro (rfl | rfl | rfl) <;> simp [Rule.analyzer] at h)
  simp only [violations, FileAnalysis.of, ofRule_append, hmarkup, htokens, List.nil_append,
    List.append_nil]

theorem ofRule_violations_of_tokens {r : Rule} (h : r.analyzer = "tokens") :
    ofRule r (FileAnalysis.of settings tables file).violations =
      ofRule r (DesignToken.check settings tables file).1 := by
  have hmarkup :=
    ofRule_eq_nil (r := r) (Structure.findings_check settings tables file) (by simp [h])
  have hclasses : ofRule r (UtilityClass.checkFile settings tables file).1 = [] :=
    ofRule_eq_nil (UtilityClass.findings_checkFile settings file) (by simp [h])
  simp only [violations, FileAnalysis.of, ofRule_append, hmarkup, hclasses, List.nil_append]

end FileAnalysis

namespace Gate

variable (settings : Settings) (tables : Tables) (disk : Disk) (root : Path)

/-- A breach in a class list or of a token was found in a component file, unless it is about tokens
that nothing refers to. -/
theorem ofRule_found_of_component {r : Rule}
    (h : r.analyzer = "utility-classes" ∨ r.analyzer = "tokens") (hr : r ≠ .tokenDefinedNotUsed) :
    ofRule r (found settings tables disk root) =
      (Sources.load settings disk root).components.flatMap fun file =>
        ofRule r (FileAnalysis.of settings tables file).violations := by
  have hbroken : ofRule r (Sources.load settings disk root).broken = [] :=
    ofRule_eq_nil (findings_broken settings disk root) (by rintro rfl; simp [Rule.analyzer] at h)
  have htyped := ofRule_eq_nil (r := r)
    (findings_typedViolations settings tables disk root (Sources.load settings disk root))
    (by rcases h with h | h <;> simp [h])
  have hunused :
      ofRule r (DesignToken.unused settings (Sources.load settings disk root).files) = [] :=
    ofRule_eq_nil (DesignToken.findings_unused settings _) hr
  have himports := ofRule_eq_nil (r := r)
    (Graph.findings_check disk settings (Program.resolver disk root) root
      (Sources.load settings disk root).files) (by rcases h with h | h <;> simp [h])
  simp only [found, ofRule_append, hbroken, htyped, hunused, himports, List.nil_append,
    List.append_nil, ofRule_flatMap, List.flatMap_map]

theorem perm_ofRule_utilityClasses {r : Rule} (h : r.analyzer = "utility-classes") :
    (ofRule r (analyze settings tables disk root).violations).Perm
      (ofRule r ((Sources.load settings disk root).components.flatMap fun file =>
        (UtilityClass.checkFile settings tables file).1)) := by
  have hp := perm_ofRule settings tables disk root r
  rw [ofRule_found_of_component settings tables disk root (.inl h)
    (by rintro rfl; simp [Rule.analyzer] at h), List.flatMap_congr fun file _ =>
      FileAnalysis.ofRule_violations_of_utilityClasses settings tables file h, ← ofRule_flatMap]
        at hp
  exact hp

theorem metrics_utilityClasses : (analyze settings tables disk root).metrics.utilityClasses =
    ((Sources.load settings disk root).components.map fun file =>
      (UtilityClass.checkFile settings tables file).2).foldl .merge .zero := by
  simp only [analyze, Report.of, List.map_map]
  rfl

theorem metrics_tokens : (analyze settings tables disk root).metrics.tokens =
    ((Sources.load settings disk root).components.map fun file =>
      (DesignToken.check settings tables file).2).foldl .merge .zero := by
  simp only [analyze, Report.of, List.map_map]
  rfl

/-- The counters of classes tell what a report holds about classes. -/
theorem tells_analyze : UtilityClass.Tells settings.thresholds
    (analyze settings tables disk root).violations
    (analyze settings tables disk root).metrics.utilityClasses := by
  have hfile : ∀ file ∈ (Sources.load settings disk root).components,
      UtilityClass.Tells settings.thresholds (UtilityClass.checkFile settings tables file).1
        (UtilityClass.checkFile settings tables file).2 :=
    fun file _ => UtilityClass.tells_checkFile settings file
  have hfiles := UtilityClass.Tells.zero.foldl_merge hfile
  rw [List.nil_append] at hfiles
  rw [metrics_utilityClasses]
  exact hfiles.of_perm fun r hr => perm_ofRule_utilityClasses settings tables disk root hr

theorem length_hardcodedColorInJsx :
    (ofRule .hardcodedColorInJsx (analyze settings tables disk root).violations).length =
      (analyze settings tables disk root).metrics.tokens.hardcoded := by
  have hcount := DesignToken.length_ofRule_hardcodedColorInJsx settings tables
    (Sources.load settings disk root).components .zero
  rw [(perm_ofRule settings tables disk root _).length_eq,
    ofRule_found_of_component settings tables disk root (.inr rfl) (by decide),
    List.flatMap_congr fun file _ =>
      FileAnalysis.ofRule_violations_of_tokens settings tables file rfl,
    ← ofRule_flatMap, metrics_tokens, ← hcount]
  exact (Nat.zero_add _).symm

theorem length_circularDependency :
    (ofRule .circularDependency (analyze settings tables disk root).violations).length =
      (analyze settings tables disk root).metrics.importGraph.circularDependencies := by
  rw [(perm_ofRule settings tables disk root _).length_eq,
    ofRule_found_of_importGraph settings tables disk root rfl,
    Graph.length_ofRule_circularDependency]
  rfl

theorem exceeds_deepImportChain :
    Exceeds .deepImportChain (analyze settings tables disk root).violations
      settings.thresholds.maxImportDepth
      (analyze settings tables disk root).metrics.importGraph.maxImportDepth := by
  have hgraph := Graph.exceeds_deepImportChain disk settings (Program.resolver disk root) root
    (Sources.load settings disk root).files
  refine hgraph.of_perm ?_
  rw [← ofRule_found_of_importGraph settings tables disk root rfl]
  exact perm_ofRule settings tables disk root _

/-- In every report the counters agree with the violations. There are as many free values, literal
colors and cycles listed as are counted, and a rule on variety, density or import depth is broken
where the number shown for it exceeds the limit that is set for it, and only there. -/
theorem counters_agree_with_violations {disk : Disk} {dir : Path} {report : Report}
    (ran : run disk dir = .ok report) :
    ∃ settings, Settings.load disk dir = .ok settings ∧
      (ofRule .noArbitraryValues report.violations).length =
        report.metrics.utilityClasses.arbitraryValueCount ∧
      (ofRule .hardcodedColorInJsx report.violations).length = report.metrics.tokens.hardcoded ∧
      (ofRule .circularDependency report.violations).length =
        report.metrics.importGraph.circularDependencies ∧
      ((∃ v ∈ report.violations, v.rule = Rule.maxContainerVariants.id) ↔
        settings.thresholds.maxContainerVariants < report.metrics.utilityClasses.uniqueMaxWValues) ∧
      ((∃ v ∈ report.violations, v.rule = Rule.spacingVariance.id) ↔
        settings.thresholds.maxSpacingVariants <
          report.metrics.utilityClasses.uniqueSpacingValues) ∧
      ((∃ v ∈ report.violations, v.rule = Rule.fontVariantLimit.id) ↔
        settings.thresholds.maxFontSizes < report.metrics.utilityClasses.uniqueFontSizes) ∧
      ((∃ v ∈ report.violations, v.rule = Rule.maxGridCols.id) ↔
        settings.thresholds.maxGridCols < report.metrics.utilityClasses.maxGridCols) ∧
      ((∃ v ∈ report.violations, v.rule = Rule.deepImportChain.id) ↔
        settings.thresholds.maxImportDepth < report.metrics.importGraph.maxImportDepth) := by
  obtain ⟨settings, root, hs, -, -, rfl⟩ := exists_of_run ran
  have hclasses := tells_analyze settings .default disk root
  refine ⟨settings, hs, hclasses.arbitrary, ?_, ?_, ?_, ?_, ?_, ?_, ?_⟩
  · exact length_hardcodedColorInJsx settings .default disk root
  · exact length_circularDependency settings .default disk root
  · exact ofRule_ne_nil_iff.symm.trans hclasses.maxWidths
  · exact ofRule_ne_nil_iff.symm.trans hclasses.spacings
  · exact ofRule_ne_nil_iff.symm.trans hclasses.fontSizes
  · exact ofRule_ne_nil_iff.symm.trans hclasses.gridCols
  · exact ofRule_ne_nil_iff.symm.trans (exceeds_deepImportChain settings .default disk root)

/-- Two files that import each other are on one cycle, and the chain is not too long. -/
theorem counters_agree_with_violations_pair :
    ∃ report, run pair ⟨"/p"⟩ = .ok report ∧
      (ofRule .circularDependency report.violations).length = 1 ∧
      ((∃ v ∈ report.violations, v.rule = Rule.deepImportChain.id) ↔
        4 < report.metrics.importGraph.maxImportDepth) := by
  obtain ⟨settings, hs, -, -, hcycles, -, -, -, -, hchain⟩ :=
    counters_agree_with_violations run_pair
  obtain rfl : Settings.default = settings := Except.ok.inj hs
  have hone : (analyze .default .default pair ⟨"/p"⟩).metrics.importGraph.circularDependencies =
      (importGraph .default pair ⟨"/p"⟩).cycles.length := rfl
  rw [hone, cycles_pair] at hcycles
  exact ⟨_, run_pair, hcycles, hchain⟩

end Gate
end QualityGate
