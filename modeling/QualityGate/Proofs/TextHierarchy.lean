import QualityGate.Proofs.Findings.Counters

/-!
Text sizes that are too large for body text. A class list may set several named sizes, under
different variants, and the check judges it by the first of them alone. So a class list is an error
just where its first named size is too large, even if a later one is.
-/
namespace QualityGate.UtilityClass

open Violation

/-- The rank of the named text size that a class sets. -/
def Token.textRank? (t : Token) : Option Nat :=
  if t.utility = "text" then Tables.textSizeRank? t.value else none

namespace ClassString

variable (limits : Thresholds) (tables : Tables) (c : ClassString)

def textRanks : List Nat := (Token.ofClasses tables.variants c.value).filterMap Token.textRank?

def isBodyText : Bool := c.element.any tables.bodyTextElements.contains

/-- Some named text size is too large for body text. -/
def isOversized : Bool :=
  isBodyText tables c && (textRanks tables c).any (· > limits.bodyTextMaxRank)

/-- The first named text size is too large for body text. -/
def isFirstOversized : Bool :=
  isBodyText tables c && (textRanks tables c).head?.any (· > limits.bodyTextMaxRank)

def hierarchyErrors : List Violation :=
  checkHierarchy limits tables ⟨c, Token.ofClasses tables.variants c.value⟩

end ClassString

section Hierarchy

variable {limits : Thresholds} {tables : Tables} {c : ClassString}

theorem map_sized? (tokens : List Token) :
    (sized? tokens).map Prod.snd = (tokens.filterMap Token.textRank?).head? := by
  unfold sized?
  induction tokens with
  | nil => rfl
  | cons t tokens ih =>
    by_cases hu : t.utility = "text"
    · cases hr : Tables.textSizeRank? t.value with
      | none => simpa [List.filter_cons, List.filterMap_cons, Token.textRank?, hu, hr] using ih
      | some rank => simp [Token.textRank?, hu, hr]
    · simpa [List.filter_cons, List.filterMap_cons, Token.textRank?, hu] using ih

/-- A class list whose first named size is too large makes one breach, where it stands. -/
theorem hierarchyErrors_of_isFirstOversized (h : c.isFirstOversized limits tables = true) :
    ∃ message, c.hierarchyErrors limits tables =
      [(Violation.error .textHierarchyCheck message).located c.place] := by
  simp only [ClassString.isFirstOversized, ClassString.isBodyText, Bool.and_eq_true,
    Option.any_eq_true, ClassString.textRanks, ← map_sized?, Option.map_eq_some_iff] at h
  obtain ⟨⟨element, helement, hbody⟩, rank, ⟨⟨t, _⟩, hsized, rfl⟩, hrank⟩ := h
  simp only [ClassString.hierarchyErrors, checkHierarchy, helement, hsized, hbody, hrank,
    Bool.and_true, if_true]
  exact ⟨_, rfl⟩

theorem hierarchyErrors_of_not_isFirstOversized (h : c.isFirstOversized limits tables = false) :
    c.hierarchyErrors limits tables = [] := by
  unfold ClassString.hierarchyErrors checkHierarchy
  split
  · next element t rank helement hsized =>
    have hhead : (c.textRanks tables).head? = some rank := by
      rw [ClassString.textRanks, ← map_sized?, hsized, Option.map_some]
    refine if_neg ?_
    change c.element = some element at helement
    simpa only [ClassString.isFirstOversized, ClassString.isBodyText, helement, hhead,
      Option.any_some, Bool.not_eq_true] using h
  · rfl

theorem length_hierarchyErrors :
    (c.hierarchyErrors limits tables).length =
      if c.isFirstOversized limits tables then 1 else 0 := by
  split_ifs with h
  · obtain ⟨message, he⟩ := hierarchyErrors_of_isFirstOversized h
    rw [he, List.length_singleton]
  · rw [hierarchyErrors_of_not_isFirstOversized (by simpa using h), List.length_nil]

theorem isOversized_of_isFirstOversized (h : c.isFirstOversized limits tables = true) :
    c.isOversized limits tables = true := by
  simp only [ClassString.isFirstOversized, ClassString.isOversized, Bool.and_eq_true,
    Option.any_eq_true] at h ⊢
  obtain ⟨hbody, rank, hhead, hrank⟩ := h
  exact ⟨hbody, List.any_eq_true.2 ⟨rank, List.mem_of_head? hhead, hrank⟩⟩

end Hierarchy

section Check

variable (settings : Settings) (tables : Tables) (classes : List ClassString)

theorem ofRule_exceeding {r : Rule} {breach : Violation} (h : breach.rule ≠ r.id)
    (found limit : ℕ) :
    ofRule r (exceeding found limit breach) = [] := by
  unfold exceeding ofRule
  split_ifs <;> simp [h]

theorem rule_of_mem_checkToken {limits : Thresholds} {origin : ClassString} {t : Token}
    {v : Violation} (h : v ∈ checkToken limits origin t) :
    v.rule = Rule.noArbitraryValues.id ∨ v.rule = Rule.maxGridCols.id := by
  rw [checkToken_eq, List.mem_append] at h
  refine h.imp (fun h => ?_) fun h => ?_
  · unfold freeValue at h
    split_ifs at h
    · rw [List.mem_singleton.1 h]
      rfl
    · cases h
  · unfold denseGrid at h
    split at h
    · split_ifs at h
      · rw [List.mem_singleton.1 h]
        rfl
      · cases h
    · cases h

/-- No class breaches the text hierarchy on its own. -/
theorem ofRule_textHierarchy_checkToken (limits : Thresholds) (origin : ClassString) (t : Token) :
    ofRule .textHierarchyCheck (checkToken limits origin t) = [] := by
  rw [ofRule, List.filter_eq_nil_iff]
  intro v hv
  rcases rule_of_mem_checkToken hv with h | h <;> rw [h] <;> decide

/-- The breaches of the text hierarchy are those of the class lists, in their order. -/
theorem ofRule_textHierarchy_check : ofRule .textHierarchyCheck (check settings tables classes).1 =
    classes.flatMap (·.hierarchyErrors settings.thresholds tables) := by
  have htokens : ofRule .textHierarchyCheck ((entries tables classes).flatMap fun e =>
      e.tokens.flatMap (checkToken settings.thresholds e.origin)) = [] := by
    simp only [ofRule_flatMap, ofRule_textHierarchy_checkToken, List.flatMap_eq_nil_iff,
      implies_true]
  have hhierarchy (e : Entry) :
      ofRule .textHierarchyCheck (checkHierarchy settings.thresholds tables e) =
      checkHierarchy settings.thresholds tables e := by
    unfold checkHierarchy
    split
    · split_ifs <;> rfl
    · rfl
  simp only [check, ofRule_append, htokens, ofRule_flatMap, hhierarchy, List.append_nil]
  rw [ofRule_exceeding ?widths, ofRule_exceeding ?spacings, ofRule_exceeding ?sizes]
  case widths | spacings | sizes =>
    simp only [error, warning]
    decide
  simp only [List.nil_append, entries, List.flatMap_map]
  rfl

/-- A class list is a breach of the text hierarchy, and one only, just where it is on body text and
its first named size is too large. To find each class list with a size that is too large, this one
has to come first. -/
theorem check_textHierarchy_iff : ofRule .textHierarchyCheck (check settings tables classes).1 =
      classes.flatMap (·.hierarchyErrors settings.thresholds tables) ∧
    (∀ c : ClassString, c.hierarchyErrors settings.thresholds tables = [] ∨ ∃ message,
      c.hierarchyErrors settings.thresholds tables =
        [(Violation.error .textHierarchyCheck message).located c.place]) ∧
    (∀ c : ClassString, c.hierarchyErrors settings.thresholds tables ≠ [] ↔
      c.isFirstOversized settings.thresholds tables) ∧
    ((∀ c ∈ classes, (c.hierarchyErrors settings.thresholds tables).length =
        if c.isOversized settings.thresholds tables then 1 else 0) ↔
      ∀ c ∈ classes, c.isOversized settings.thresholds tables →
        c.isFirstOversized settings.thresholds tables) := by
  refine ⟨ofRule_textHierarchy_check settings tables classes,
    fun c => ?single, fun c => ?errs, ?all⟩
  case single =>
    cases h : c.isFirstOversized settings.thresholds tables with
    | false => exact .inl (hierarchyErrors_of_not_isFirstOversized h)
    | true => exact .inr (hierarchyErrors_of_isFirstOversized h)
  case errs =>
    rw [ne_eq, ← List.length_eq_zero_iff, length_hierarchyErrors]
    simp
  case all =>
    refine forall₂_congr fun c _ => ?_
    have hfirst := @isOversized_of_isFirstOversized settings.thresholds tables c
    rw [length_hierarchyErrors]
    cases ho : c.isOversized settings.thresholds tables <;>
      cases hf : c.isFirstOversized settings.thresholds tables <;> simp_all

def growingText : ClassString := ⟨"text-sm md:text-5xl", ⟨1, 1⟩, some "p"⟩

/-- The large size comes second, so it is no breach. -/
theorem growingText_unnoticed : growingText.isOversized .default .default = true ∧
    (check .default .default [growingText]).1 = [] := by
  decide +kernel

end Check
end QualityGate.UtilityClass
