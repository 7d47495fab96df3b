import QualityGate.Proofs.Findings.Components
import QualityGate.Proofs.Graph.Chain
import QualityGate.Proofs.Report.RollUp

/-!
Counters beside what was found. The counters of class lists and of tokens are made apart from the
breaches that are found in a file; each of them tells how many breaches of its rule there are, or
whether there is one. Rolling counters up while breaches are listed one file after the other keeps
it so.
-/
namespace QualityGate

open Syntax Violation

namespace Violation

variable {r : Rule} {vs ws : List Violation} {limit m n : ℕ}

theorem ofRule_ne_nil_iff : ofRule r vs ≠ [] ↔ ∃ v ∈ vs, v.rule = r.id := by
  simp [ofRule, List.filter_eq_nil_iff]

theorem ofRule_flatMap {α : Type*} (r : Rule) (l : List α) (f : α → List Violation) :
    ofRule r (l.flatMap f) = l.flatMap fun a => ofRule r (f a) :=
  List.filter_flatMap ..

/-- There is a breach of the rule where the number exceeds the limit, and only there. -/
def Exceeds (r : Rule) (vs : List Violation) (limit n : ℕ) : Prop := ofRule r vs ≠ [] ↔ limit < n

theorem exceeds_nil : Exceeds r [] limit 0 := by simp [Exceeds, ofRule]

theorem length_ofRule_absent {rules : Rule → Prop} (h : Findings rules vs) (hr : ¬ rules r) :
    (ofRule r vs).length = 0 :=
  List.length_eq_zero_iff.2 (ofRule_eq_nil h hr)

theorem Exceeds.absent {rules : Rule → Prop} (h : Findings rules vs) (hr : ¬ rules r) :
    Exceeds r vs limit 0 := by
  rw [Exceeds, ofRule_eq_nil h hr]
  simp

theorem Exceeds.append (h : Exceeds r vs limit m) (k : Exceeds r ws limit n) :
    Exceeds r (vs ++ ws) limit (max m n) := by
  rw [Exceeds] at *
  rw [ofRule_append, lt_max_iff, ← h, ← k, ne_eq, List.append_eq_nil_iff, not_and_or]

theorem Exceeds.of_perm (h : Exceeds r vs limit n) (hp : (ofRule r ws).Perm (ofRule r vs)) :
    Exceeds r ws limit n := by
  rw [Exceeds, ne_eq, ← List.length_eq_zero_iff, hp.length_eq, List.length_eq_zero_iff]
  exact h

theorem Exceeds.inFile (h : Exceeds r vs limit n) (p : Path) :
    Exceeds r (vs.map (·.inFile p)) limit n := by
  rw [Exceeds, ofRule_map_inFile, ne_eq, List.map_eq_nil_iff]
  exact h

end Violation

namespace UtilityClass

variable {limits : Thresholds} {tables : Tables} {r : Rule}

/-- The counters of class lists tell what was found in them. -/
structure Tells (limits : Thresholds) (vs : List Violation) (m : Metrics) : Prop where
  arbitrary : (ofRule .noArbitraryValues vs).length = m.arbitraryValueCount
  maxWidths : Exceeds .maxContainerVariants vs limits.maxContainerVariants m.uniqueMaxWValues
  spacings : Exceeds .spacingVariance vs limits.maxSpacingVariants m.uniqueSpacingValues
  fontSizes : Exceeds .fontVariantLimit vs limits.maxFontSizes m.uniqueFontSizes
  gridCols : Exceeds .maxGridCols vs limits.maxGridCols m.maxGridCols

namespace Tells

variable {vs ws : List Violation} {m n : Metrics}

theorem zero : Tells limits [] .zero :=
  ⟨rfl, exceeds_nil, exceeds_nil, exceeds_nil, exceeds_nil⟩

theorem of_eq (he : n = m) (h : Tells limits vs m) : Tells limits vs n := he ▸ h

theorem append (h : Tells limits vs m) (k : Tells limits ws n) :
    Tells limits (vs ++ ws) (m.merge n) where
  arbitrary := by rw [ofRule_append, List.length_append, h.arbitrary, k.arbitrary, Metrics.merge]
  maxWidths := h.maxWidths.append k.maxWidths
  spacings := h.spacings.append k.spacings
  fontSizes := h.fontSizes.append k.fontSizes
  gridCols := h.gridCols.append k.gridCols

/-- Only the breaches of rules on classes matter, in any order. -/
theorem of_perm (h : Tells limits vs m)
    (hp : ∀ r : Rule, r.analyzer = "utility-classes" → (ofRule r ws).Perm (ofRule r vs)) :
    Tells limits ws m where
  arbitrary := (hp .noArbitraryValues rfl).length_eq.trans h.arbitrary
  maxWidths := h.maxWidths.of_perm (hp .maxContainerVariants rfl)
  spacings := h.spacings.of_perm (hp .spacingVariance rfl)
  fontSizes := h.fontSizes.of_perm (hp .fontVariantLimit rfl)
  gridCols := h.gridCols.of_perm (hp .maxGridCols rfl)

/-- What holds of each file holds of all of them together. -/
theorem foldl_merge {α : Type*} {f : α → List Violation} {g : α → Metrics} {l : List α}
    (h : Tells limits vs m) (hl : ∀ a ∈ l, Tells limits (f a) (g a)) :
    Tells limits (vs ++ l.flatMap f) ((l.map g).foldl .merge m) := by
  induction l generalizing vs m with
  | nil => simpa using h
  | cons a l ih =>
    obtain ⟨ha, hl⟩ := List.forall_mem_cons.1 hl
    rw [List.flatMap_cons, ← List.append_assoc, List.map_cons, List.foldl_cons]
    exact ih (h.append ha) hl

end Tells

theorem exceeds_exceeding {breach : Violation} (hb : breach.Found (· = r)) (limit n : ℕ) :
    Exceeds r (exceeding n limit breach) limit n := by
  rw [Exceeds, ofRule_eq_self (findings_exceeding hb n limit), exceeding]
  split_ifs with h
  · simpa using h
  · simpa using h

theorem length_ofRule_checkToken {origin : ClassString} (h : origin.place.Counted) (t : Token) :
    (ofRule .noArbitraryValues (checkToken limits origin t)).length =
      if t.arbitrary then 1 else 0 := by
  rw [checkToken_eq, ofRule_append, ofRule_eq_self (findings_freeValue h t),
    ofRule_eq_nil (findings_denseGrid h t) (by decide), List.append_nil, freeValue]
  split_ifs <;> rfl

/-- A class breaches the limit of columns by its grid alone. -/
theorem ofRule_maxGridCols_checkToken (origin : ClassString) (t : Token) :
    ofRule .maxGridCols (checkToken limits origin t) = denseGrid limits.maxGridCols origin t := by
  have hfree : ofRule .maxGridCols (freeValue origin t) = [] := by
    unfold freeValue
    split_ifs <;> rfl
  have hdense : ofRule .maxGridCols (denseGrid limits.maxGridCols origin t) =
      denseGrid limits.maxGridCols origin t := by
    unfold denseGrid
    split
    · split_ifs <;> rfl
    · rfl
  rw [checkToken_eq, ofRule_append, hfree, hdense, List.nil_append]

theorem denseGrid_ne_nil_iff {limit : ℕ} {origin : ClassString} {t : Token} :
    denseGrid limit origin t ≠ [] ↔ ∃ n, gridColumns? t = some n ∧ limit < n := by
  unfold denseGrid
  split
  · next n hn => simp [hn]
  · next hn => simp [hn]

section Check

variable {es : List Entry}

theorem length_ofRule_tokens (h : ∀ e ∈ es, e.origin.place.Counted) :
    (ofRule .noArbitraryValues (es.flatMap fun e =>
      e.tokens.flatMap (checkToken limits e.origin))).length =
      ((es.flatMap (·.tokens)).filter (·.arbitrary)).length := by
  have htokens (e : Entry) (he : e ∈ es) :
      (ofRule .noArbitraryValues (e.tokens.flatMap (checkToken limits e.origin))).length =
        (e.tokens.filter (·.arbitrary)).length := by
    induction e.tokens with
    | nil => rfl
    | cons t ts ih =>
      rw [List.flatMap_cons, ofRule_append, List.length_append, ih, List.filter_cons,
        length_ofRule_checkToken (h e he)]
      split_ifs
      · exact Nat.add_comm ..
      · exact Nat.zero_add _
  rw [ofRule_flatMap, List.filter_flatMap, List.length_flatMap, List.length_flatMap,
    List.map_congr_left htokens]

theorem lt_foldl_max_iff {limit : ℕ} {ns : List ℕ} :
    limit < ns.foldl max 0 ↔ ∃ n ∈ ns, limit < n := by
  have h := Graph.le_foldl_max_iff (f := id) (n := limit + 1) (m := 0) (l := ns)
  simpa [Nat.succ_le_iff] using h

theorem exceeds_maxGridCols_tokens (es : List Entry) :
    Exceeds .maxGridCols (es.flatMap fun e => e.tokens.flatMap (checkToken limits e.origin))
      limits.maxGridCols (((es.flatMap (·.tokens)).filterMap gridColumns?).foldl max 0) := by
  rw [Exceeds, lt_foldl_max_iff]
  simp only [ofRule_flatMap, ofRule_maxGridCols_checkToken, ne_eq, List.flatMap_eq_nil_iff,
    not_forall, exists_prop, denseGrid_ne_nil_iff, List.mem_filterMap, List.mem_flatMap]
  constructor
  · rintro ⟨e, he, t, ht, n, hn, hlt⟩
    exact ⟨n, ⟨t, ⟨e, he, ht⟩, hn⟩, hlt⟩
  · rintro ⟨n, ⟨t, ⟨e, he, ht⟩, hn⟩, hlt⟩
    exact ⟨e, he, t, ht, n, hn, hlt⟩

end Check

/-- The parts of the check each have counters of their own, and those of the check are put together
from them. -/
theorem metrics_eq (all : List Token) : metrics tables all =
    ((Metrics.mk 0 (maxWidths all).length 0 0 0).merge ⟨(spacings tables all).length, 0, 0, 0, 0⟩
      |>.merge ⟨0, 0, 0, (all.filter (·.arbitrary)).length,
        (all.filterMap gridColumns?).foldl max 0⟩
      |>.merge ⟨0, 0, (fontSizes all).length, 0, 0⟩ |>.merge .zero) := by
  simp [metrics, Metrics.merge, Metrics.zero]

theorem tells_check (settings : Settings) {classes : List ClassString}
    (h : ∀ c ∈ classes, c.place.Counted) :
    Tells settings.thresholds (check settings tables classes).1
      (check settings tables classes).2 := by
  have hentry := @counted_entries tables _ h
  have htokens : Findings (fun r => r = .noArbitraryValues ∨ r = .maxGridCols)
      ((entries tables classes).flatMap fun e =>
        e.tokens.flatMap (checkToken settings.thresholds e.origin)) :=
    .flatMap fun e he => .flatMap fun t _ => findings_checkToken (hentry e he) t
  have hhierarchy : Findings (· = .textHierarchyCheck)
      ((entries tables classes).flatMap (checkHierarchy settings.thresholds tables)) :=
    .flatMap fun e he => findings_checkHierarchy (hentry e he)
  simp only [check]
  refine .of_eq (metrics_eq _) (.append (.append (.append (.append ?_ ?_) ?_) ?_) ?_)
  · exact
      { arbitrary := length_ofRule_absent (findings_exceeding found_breach _ _) (by decide)
        maxWidths := exceeds_exceeding found_breach _ _
        spacings := .absent (findings_exceeding found_breach _ _) (by decide)
        fontSizes := .absent (findings_exceeding found_breach _ _) (by decide)
        gridCols := .absent (findings_exceeding found_breach _ _) (by decide) }
  · exact
      { arbitrary := length_ofRule_absent (findings_exceeding found_breach _ _) (by decide)
        maxWidths := .absent (findings_exceeding found_breach _ _) (by decide)
        spacings := exceeds_exceeding found_breach _ _
        fontSizes := .absent (findings_exceeding found_breach _ _) (by decide)
        gridCols := .absent (findings_exceeding found_breach _ _) (by decide) }
  · exact
      { arbitrary := length_ofRule_tokens hentry
        maxWidths := .absent htokens (by decide)
        spacings := .absent htokens (by decide)
        fontSizes := .absent htokens (by decide)
        gridCols := exceeds_maxGridCols_tokens _ }
  · exact
      { arbitrary := length_ofRule_absent (findings_exceeding found_breach _ _) (by decide)
        maxWidths := .absent (findings_exceeding found_breach _ _) (by decide)
        spacings := .absent (findings_exceeding found_breach _ _) (by decide)
        fontSizes := exceeds_exceeding found_breach _ _
        gridCols := .absent (findings_exceeding found_breach _ _) (by decide) }
  · exact
      { arbitrary := length_ofRule_absent hhierarchy (by decide)
        maxWidths := .absent hhierarchy (by decide)
        spacings := .absent hhierarchy (by decide)
        fontSizes := .absent hhierarchy (by decide)
        gridCols := .absent hhierarchy (by decide) }

theorem Tells.inFile {vs : List Violation} {m : Metrics} (h : Tells limits vs m) (p : Path) :
    Tells limits (vs.map (·.inFile p)) m where
  arbitrary := by rw [ofRule_map_inFile, List.length_map, h.arbitrary]
  maxWidths := h.maxWidths.inFile p
  spacings := h.spacings.inFile p
  fontSizes := h.fontSizes.inFile p
  gridCols := h.gridCols.inFile p

/-- The counters of a file tell what was found in its class lists. -/
theorem tells_checkFile (settings : Settings) (file : SourceFile) :
    Tells settings.thresholds (checkFile settings tables file).1
      (checkFile settings tables file).2 := by
  simp only [checkFile]
  exact (tells_check settings fun _ => ClassString.counted_of_mem_ofFile).inFile file.path

end UtilityClass

namespace DesignToken

/-- The literal colors of all files are counted. -/
theorem length_ofRule_hardcodedColorInJsx (settings : Settings) (tables : Tables)
    (files : List SourceFile) (m : Metrics) :
    m.hardcoded + (ofRule .hardcodedColorInJsx
        (files.flatMap fun file => (check settings tables file).1)).length =
      ((files.map fun file => (check settings tables file).2).foldl .merge m).hardcoded := by
  induction files generalizing m with
  | nil => rfl
  | cons file files ih =>
    rw [List.flatMap_cons, ofRule_append, List.length_append, List.map_cons, List.foldl_cons, ← ih,
      ← Nat.add_assoc]
    rfl

end DesignToken
end QualityGate
