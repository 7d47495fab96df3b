import QualityGate.Proofs.Report.RollUp
import QualityGate.Proofs.UtilityClass.Token
import QualityGate.Proofs.Violation.Within
import QualityGate.UtilityClass.Check

/-!
Class lists in another order, divided in another way, or with others added. The counters are those
of the words of all lists together, however these are divided into lists; the breaches are counted
limits on these words and what each list breaches on its own. So the order of the lists does not
matter, and added lists undo no breach.
-/
namespace QualityGate

open Violation

namespace Violation

/-- Each rule with a breach in the first list has one in the second. -/
def RulesAmong (vs ws : List Violation) : Prop := ∀ v ∈ vs, ∃ w ∈ ws, w.rule = v.rule

variable {vs ws : List Violation}

theorem RulesAmong.of_subset (h : vs ⊆ ws) : RulesAmong vs ws := fun v hv => ⟨v, h hv, rfl⟩

theorem RulesAmong.additive : Additive RulesAmong where
  nil := .of_subset (List.nil_subset _)
  append h k v hv := by
    rcases List.mem_append.1 hv with hv | hv
    · obtain ⟨w, hw, hrule⟩ := h v hv
      exact ⟨w, List.mem_append_left _ hw, hrule⟩
    · obtain ⟨w, hw, hrule⟩ := k v hv
      exact ⟨w, List.mem_append_right _ hw, hrule⟩

end Violation

namespace UtilityClass

variable {settings : Settings} {tables : Tables} {ts us : List Token} {cs ds : List ClassString}

/-- Of more classes at least as many different texts are selected. -/
theorem length_eraseDups_mono (p : Token → Bool) (text : Token → String) (h : ts ⊆ us) :
    ((ts.filter p).map text).eraseDups.length ≤ ((us.filter p).map text).eraseDups.length := by
  refine (List.subperm_of_subset (nodup_eraseDups _) fun s hs => ?_).length_le
  rw [List.mem_eraseDups] at hs ⊢
  exact List.map_subset text (List.filter_subset p h) hs

theorem length_eraseDups_of_perm (p : Token → Bool) (text : Token → String) (h : us.Perm ts) :
    ((us.filter p).map text).eraseDups.length = ((ts.filter p).map text).eraseDups.length :=
  (length_eraseDups_mono p text h.subset).antisymm (length_eraseDups_mono p text h.symm.subset)

theorem metrics_of_perm (tables : Tables) (h : us.Perm ts) :
    metrics tables us = metrics tables ts := by
  have hcols : (us.filterMap gridColumns?).foldl max 0 = (ts.filterMap gridColumns?).foldl max 0 :=
    (h.filterMap gridColumns?).foldl_eq' (fun _ _ _ _ _ => max_right_comm ..) 0
  simp only [metrics, spacings, maxWidths, fontSizes, length_eraseDups_of_perm _ _ h,
    (h.filter _).length_eq, hcols]

def ClassString.words (c : ClassString) : List (List Char) := Text.words c.value.toList

theorem flatMap_tokens_entries (tables : Tables) (cs : List ClassString) :
    (entries tables cs).flatMap (·.tokens) =
      (cs.flatMap (·.words)).map (Token.ofWord tables.variants) := by
  simp only [entries, List.flatMap_map, Token.ofClasses_eq, List.map_flatMap, ClassString.words]

/-- The counters are those of the words, whatever lists they stand in. -/
theorem metrics_of_words (h : (ds.flatMap (·.words)).Perm (cs.flatMap (·.words))) :
    (check settings tables ds).2 = (check settings tables cs).2 := by
  simp only [check, flatMap_tokens_entries]
  exact metrics_of_perm tables (h.map _)

theorem perm_check (h : ds.Perm cs) :
    (check settings tables ds).1.Perm (check settings tables cs).1 := by
  have hentries : (entries tables ds).Perm (entries tables cs) := h.map _
  have hmetrics := metrics_of_perm tables (hentries.flatMap_right (·.tokens))
  simp only [check, hmetrics]
  exact (((hentries.flatMap_right _).append_left _).append_right _).append
    (hentries.flatMap_right _)

theorem rulesAmong_exceeding {m n limit : ℕ} {v w : Violation} (hrule : w.rule = v.rule)
    (h : m ≤ n) :
    RulesAmong (exceeding m limit v) (exceeding n limit w) := by
  unfold exceeding
  split_ifs with hm hn
  · simpa [RulesAmong] using hrule
  · exact absurd (hm.trans_le h) hn
  · exact .of_subset (List.nil_subset _)
  · exact .of_subset (List.nil_subset _)

theorem flatMap_entries_subset {α : Type*} (tables : Tables) (f : Entry → List α)
    (cs ds : List ClassString) :
    (entries tables cs).flatMap f ⊆ (entries tables (cs ++ ds)).flatMap f := by
  simp only [entries, List.map_append, List.flatMap_append]
  exact List.subset_append_left _ _

/-- Class lists that are added undo no breach. -/
theorem rulesAmong_check (cs ds : List ClassString) :
    RulesAmong (check settings tables cs).1 (check settings tables (cs ++ ds)).1 := by
  have htokens := flatMap_entries_subset tables (·.tokens) cs ds
  have hadd := RulesAmong.additive
  simp only [check]
  refine hadd.append (hadd.append (hadd.append (hadd.append ?widths ?spacings) ?classes) ?sizes)
    ?hierarchy
  case widths => exact rulesAmong_exceeding rfl (length_eraseDups_mono _ _ htokens)
  case spacings => exact rulesAmong_exceeding rfl (length_eraseDups_mono _ _ htokens)
  case classes => exact .of_subset (flatMap_entries_subset tables _ cs ds)
  case sizes => exact rulesAmong_exceeding rfl (length_eraseDups_mono _ _ htokens)
  case hierarchy => exact .of_subset (flatMap_entries_subset tables _ cs ds)

/-- The check does not depend on how class lists are laid out in a file. In another order they have
the same breaches, each as often, and the same counters. The counters depend on nothing but how
often each word occurs in all lists together. And where a rule is breached, it still is when lists
are added. -/
theorem check_independent_of_layout (settings : Settings) (tables : Tables)
    (cs ds : List ClassString) :
    (ds.Perm cs → (check settings tables ds).1.Perm (check settings tables cs).1 ∧
      (check settings tables ds).2 = (check settings tables cs).2) ∧
    ((ds.flatMap (·.words)).Perm (cs.flatMap (·.words)) →
      (check settings tables ds).2 = (check settings tables cs).2) ∧
    ∀ r : Rule, (∃ v ∈ (check settings tables cs).1, v.rule = r.id) →
      ∃ v ∈ (check settings tables (cs ++ ds)).1, v.rule = r.id := by
  refine ⟨fun h => ⟨perm_check h, metrics_of_words (h.flatMap_right _)⟩, metrics_of_words, ?_⟩
  rintro r ⟨v, hv, hrule⟩
  obtain ⟨w, hw, hsame⟩ := rulesAmong_check cs ds v hv
  exact ⟨w, hw, hsame.trans hrule⟩

def spread : List ClassString :=
  [⟨"grid-cols-6 w-[1px]", ⟨1, 5⟩, none⟩, ⟨"text-5xl", ⟨2, 5⟩, some "p"⟩]

def regrouped : List ClassString :=
  [⟨"text-5xl", ⟨1, 5⟩, none⟩, ⟨" grid-cols-6", ⟨1, 9⟩, some "p"⟩, ⟨"w-[1px]", ⟨3, 5⟩, none⟩]

theorem check_of_regrouped :
    spread.reverse.Perm spread ∧
      (check .default .default spread.reverse).1.Perm (check .default .default spread).1 ∧
      (regrouped.flatMap (·.words)).Perm (spread.flatMap (·.words)) ∧
      (check .default .default regrouped).2 = (check .default .default spread).2 ∧
      (∃ v ∈ (check .default .default spread).1, v.rule = Rule.textHierarchyCheck.id) ∧
      ∃ v ∈ (check .default .default (spread ++ regrouped)).1, v.rule =
        Rule.textHierarchyCheck.id := by
  have hreverse := (check_independent_of_layout .default .default spread spread.reverse).1
  obtain ⟨-, hwords, hrules⟩ := check_independent_of_layout .default .default spread regrouped
  have hperm : (regrouped.flatMap (·.words)).Perm (spread.flatMap (·.words)) := by decide +kernel
  have hlarge : ∃ v ∈ (check .default .default spread).1, v.rule = Rule.textHierarchyCheck.id := by
    decide +kernel
  exact ⟨spread.reverse_perm, (hreverse spread.reverse_perm).1, hperm, hwords hperm, hlarge,
    hrules .textHierarchyCheck hlarge⟩

end UtilityClass
end QualityGate
