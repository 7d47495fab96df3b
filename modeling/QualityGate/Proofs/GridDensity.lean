import QualityGate.Proofs.PixelLength
import QualityGate.Proofs.TextHierarchy

/-!
Dense grids. A class of a grid names its columns by a numeral of any length, zeros in front
included. A number above the limit is reported where the class list stands, once for each class that
names it, as long as it fits into 32 bits. A larger one is taken for no number: it is neither
reported nor counted.
-/
namespace QualityGate.UtilityClass

open Violation
open Structure (Denotes number?_eq_some_iff)

/-- A class of a grid whose value is a numeral for `n` columns. -/
structure Token.IsGrid (t : Token) (n : ℕ) : Prop where
  utility : t.utility = "grid-cols"
  plain : t.arbitrary = false
  value_ne_nil : t.value.toList ≠ []
  denotes : Denotes t.value.toList n

def denseBreach (limit n : ℕ) : Violation :=
  .warning .maxGridCols ("Grid too dense (" ++ toString n ++ " columns). Consider reducing to "
    ++ toString limit ++ " or fewer columns.")

def ClassString.denseReports (limit : ℕ) (c : ClassString) (n : ℕ) : List Violation :=
  if limit < n then [(denseBreach limit n).located c.place] else []

variable {t : Token} {c : ClassString} {limit n : ℕ} {tables : Tables} {classes : List ClassString}

theorem Token.isGrid_iff : t.IsGrid n ↔
    t.utility = "grid-cols" ∧ t.arbitrary = false ∧ Text.number? t.value.toList = some n := by
  constructor
  · rintro ⟨hutility, hplain, hne, hdenotes⟩
    exact ⟨hutility, hplain, (number?_eq_some_iff hne).2 hdenotes⟩
  · rintro ⟨hutility, hplain, hnumber⟩
    have hne : t.value.toList ≠ [] := by
      intro hnil
      simp [hnil, Text.number?] at hnumber
    exact ⟨hutility, hplain, hne, (number?_eq_some_iff hne).1 hnumber⟩

instance (t : Token) (n : ℕ) : Decidable (t.IsGrid n) := decidable_of_iff' _ Token.isGrid_iff

/-- A numeral is read as it stands, since it has no sign. -/
theorem columns?_of_denotes {value : String} (hne : value.toList ≠ [])
    (h : Denotes value.toList n) :
    columns? value = if n < 2 ^ 32 then some n else none := by
  have hunsigned : columns? value = (Text.number? value.toList).filter (· < Nat.pow 2 32) := by
    unfold columns?
    split
    · next cs hcs =>
      have hdigit : '+'.isDigit = true := h.1 '+' (hcs ▸ List.mem_cons_self)
      exact absurd hdigit (by decide)
    · rfl
  rw [hunsigned, (number?_eq_some_iff hne).2 h, Option.filter_some]
  exact if_congr decide_eq_true_iff rfl rfl

theorem gridColumns?_of_isGrid (h : t.IsGrid n) :
    gridColumns? t = if n < 2 ^ 32 then some n else none := by
  rw [gridColumns?, h.utility, h.plain]
  exact columns?_of_denotes h.value_ne_nil h.denotes

theorem lt_of_gridColumns? (h : gridColumns? t = some n) : n < 2 ^ 32 := by
  unfold gridColumns? at h
  split_ifs at h
  exact of_decide_eq_true (Option.filter_eq_some_iff.1 h).2

/-- A class with a number that fits is reported if it is above the limit, and no other one is. -/
theorem denseGrid_of_isGrid (h : t.IsGrid n) :
    denseGrid limit c t = if n < 2 ^ 32 then c.denseReports limit n else [] := by
  rw [denseGrid, gridColumns?_of_isGrid h]
  split_ifs <;> rfl

/-- The class `t` of the class list `c` has `n` columns. -/
def ClassString.HasGrid (tables : Tables) (c : ClassString) (t : Token) (n : ℕ) : Prop :=
  t ∈ Token.ofClasses tables.variants c.value ∧ t.IsGrid n

/-- The reports of dense grids are those of the classes, in their order. -/
theorem ofRule_maxGridCols_check (settings : Settings) (tables : Tables)
    (classes : List ClassString) :
    ofRule .maxGridCols (check settings tables classes).1 = classes.flatMap fun c =>
      (Token.ofClasses tables.variants c.value).flatMap
        (denseGrid settings.thresholds.maxGridCols c) := by
  have hhierarchy : ofRule .maxGridCols
      ((entries tables classes).flatMap (checkHierarchy settings.thresholds tables)) = [] := by
    rw [ofRule_flatMap, List.flatMap_eq_nil_iff]
    intro e _
    unfold checkHierarchy
    split
    · split_ifs <;> rfl
    · rfl
  simp only [check, ofRule_append, hhierarchy, ofRule_flatMap, ofRule_maxGridCols_checkToken,
    List.append_nil]
  rw [ofRule_exceeding ?widths, ofRule_exceeding ?spacings, ofRule_exceeding ?sizes]
  case widths | spacings | sizes =>
    simp only [error, warning]
    decide
  simp only [List.nil_append, List.append_nil, entries, List.flatMap_map]

/-- The counter is at least the number of columns of each class with a number that fits. -/
theorem le_maxGridCols_iff (settings : Settings) (hc : c ∈ classes) (h : c.HasGrid tables t n) :
    n ≤ (check settings tables classes).2.maxGridCols ↔ n < 2 ^ 32 := by
  have hcounter : (check settings tables classes).2.maxGridCols =
      (((entries tables classes).flatMap (·.tokens)).filterMap gridColumns?).foldl max 0 := rfl
  have ht : t ∈ (entries tables classes).flatMap (·.tokens) :=
    List.mem_flatMap.2 ⟨⟨c, Token.ofClasses tables.variants c.value⟩, List.mem_map_of_mem hc, h.1⟩
  rw [hcounter]
  constructor
  · intro hle
    by_contra hlarge
    have hlt : 2 ^ 32 - 1 <
        (((entries tables classes).flatMap (·.tokens)).filterMap gridColumns?).foldl max 0 := by
      omega
    obtain ⟨m, hm, hfits⟩ := lt_foldl_max_iff.1 hlt
    obtain ⟨u, -, hu⟩ := List.mem_filterMap.1 hm
    have hword := lt_of_gridColumns? hu
    omega
  · intro hfits
    by_contra hlt
    have hn : n ∈ ((entries tables classes).flatMap (·.tokens)).filterMap gridColumns? :=
      List.mem_filterMap.2 ⟨t, ht, by rw [gridColumns?_of_isGrid h.2, if_pos hfits]⟩
    exact Nat.lt_irrefl _ (lt_foldl_max_iff.2 ⟨n, hn, Nat.lt_of_not_le hlt⟩)

/-- The reports of dense grids are those of the single classes. A class with `n` columns is
reported, once, where `n` is above the limit and fits into 32 bits; only then does the counter reach
`n`. So every grid that is too dense is reported and counted just where no class has a number that
is too large for 32 bits. -/
theorem check_maxGridCols_iff (settings : Settings) (tables : Tables) (classes : List ClassString) :
    ofRule .maxGridCols (check settings tables classes).1 = classes.flatMap (fun c =>
      (Token.ofClasses tables.variants c.value).flatMap
        (denseGrid settings.thresholds.maxGridCols c)) ∧
    (∀ c ∈ classes, ∀ t n, c.HasGrid tables t n →
      denseGrid settings.thresholds.maxGridCols c t =
          (if n < 2 ^ 32 then c.denseReports settings.thresholds.maxGridCols n else []) ∧
        (n ≤ (check settings tables classes).2.maxGridCols ↔ n < 2 ^ 32)) ∧
    ((∀ c ∈ classes, ∀ t n, c.HasGrid tables t n →
        denseGrid settings.thresholds.maxGridCols c t =
          c.denseReports settings.thresholds.maxGridCols n ∧
          n ≤ (check settings tables classes).2.maxGridCols) ↔
      ∀ c ∈ classes, ∀ t n, c.HasGrid tables t n → n < 2 ^ 32) := by
  refine ⟨ofRule_maxGridCols_check settings tables classes, fun c hc t n h => ?single, ?all⟩
  case single => exact ⟨denseGrid_of_isGrid h.2, le_maxGridCols_iff settings hc h⟩
  case all =>
    refine forall₂_congr fun c hc => forall₂_congr fun t n => forall_congr' fun h => ?_
    rw [le_maxGridCols_iff settings hc h, denseGrid_of_isGrid h.2]
    exact ⟨And.right, fun hfits => ⟨if_pos hfits, hfits⟩⟩

/-- One column more than 32 bits can count. -/
def wideGrid : ClassString := ⟨"grid-cols-4294967296", ⟨1, 1⟩, none⟩

/-- The widest grid of all is neither reported nor counted. -/
theorem wideGrid_unnoticed :
    (∃ t ∈ Token.ofClasses Tables.default.variants wideGrid.value, t.IsGrid 4294967296) ∧
      check .default .default [wideGrid] = ([], .zero) := by
  decide +kernel

/-- Zeros in front do not matter, and the largest number that fits is reported. -/
example : check .default .default [⟨"grid-cols-0000000000005 grid-cols-004 md:grid-cols-4294967295",
    ⟨1, 7⟩, none⟩] =
    ([(denseBreach 4 5).located ⟨1, 7⟩, (denseBreach 4 4294967295).located ⟨1, 7⟩],
      ⟨0, 0, 0, 0, 4294967295⟩) := by
  decide +kernel

end QualityGate.UtilityClass
