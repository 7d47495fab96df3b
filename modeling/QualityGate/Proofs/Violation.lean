import QualityGate.Violation
import Mathlib.Data.List.Nodup

/-!
What is common to all that checks find: a breach has the name and the severity of one rule, and a
place that counts from one on where it has a place. A report holds what was found, in another order.
-/
namespace QualityGate

open Syntax

namespace Syntax

def Location.Counted (l : Location) : Prop := 1 ≤ l.line ∧ 1 ≤ l.column

theorem Location.Counted.next {l : Location} (h : l.Counted) (c : Char) : (l.next c).Counted := by
  unfold Location.next
  split_ifs
  · exact ⟨Nat.le_add_left 1 _, Nat.le_refl 1⟩
  · exact ⟨h.1, Nat.le_add_right_of_le h.2⟩

theorem Location.counted_foldl {l : Location} (h : l.Counted) (cs : List Char) :
    (cs.foldl Location.next l).Counted := by
  induction cs generalizing l with
  | nil => exact h
  | cons c cs ih => exact ih (h.next c)

theorem Location.counted_after (cs : List Char) : (Location.after cs).Counted :=
  counted_foldl ⟨Nat.le_refl 1, Nat.le_refl 1⟩ cs

theorem SourceFile.counted_location (file : SourceFile) (n : Node) : (file.location n).Counted :=
  Location.counted_after _

end Syntax

theorem Rule.mem_catalog (r : Rule) : r ∈ catalog := by
  cases r <;> decide

theorem Rule.nodup_ids : (catalog.map id).Nodup := by decide

/-- A rule is known by its name. -/
theorem Rule.id_injective : Function.Injective id := fun r s h =>
  List.inj_on_of_nodup_map nodup_ids (mem_catalog r) (mem_catalog s) h

/-- A breach with the severity that the catalog has for its rule. -/
def Rule.breach (rule : Rule) (message : String) : Violation :=
  ⟨rule.id, rule.severity, message, none, none, none⟩

namespace Violation

/-- A breach of one of the rules, well placed if it has a place. -/
structure Found (rules : Rule → Prop) (v : Violation) : Prop where
  rule : ∃ r, rules r ∧ v.rule = r.id ∧ v.severity = r.severity
  place : v.line = none ∧ v.column = none ∨
    ∃ l : Location, l.Counted ∧ v.line = some l.line ∧ v.column = some l.column

/-- All violations are breaches of some of the rules. -/
def Findings (rules : Rule → Prop) (vs : List Violation) : Prop := ∀ v ∈ vs, v.Found rules

variable {rules more : Rule → Prop} {r : Rule} {v : Violation} {vs ws : List Violation}

theorem found_breach {message : String} : (r.breach message).Found (· = r) :=
  ⟨⟨r, rfl, rfl, rfl⟩, .inl ⟨rfl, rfl⟩⟩

theorem Found.located (h : v.Found rules) {l : Location} (hl : l.Counted) :
    (v.located l).Found rules :=
  ⟨h.rule, .inr ⟨l, hl, rfl, rfl⟩⟩

/-- A check that calls a breach an error finds what the catalog says, if the rule is about
errors. -/
theorem error_eq_breach {message : String} (h : r.severity = .error) :
    error r message = r.breach message := by
  rw [error, Rule.breach, h]

/-- What most checks find, if anything. -/
theorem found_at {message : String} {file : SourceFile} {n : Node} :
    ((r.breach message).located (file.location n)).Found (· = r) :=
  found_breach.located (file.counted_location n)

theorem Found.inFile (h : v.Found rules) (p : Path) : (v.inFile p).Found rules := ⟨h.rule, h.place⟩

theorem Found.mono (h : v.Found rules) (hm : ∀ r, rules r → more r) : v.Found more :=
  ⟨h.rule.imp fun r hr => ⟨hm r hr.1, hr.2⟩, h.place⟩

/-- The name of a breach tells its rule. -/
theorem Found.rules_of_id (h : v.Found rules) (hv : v.rule = r.id) : rules r := by
  obtain ⟨s, hs, he, -⟩ := h.rule
  rwa [Rule.id_injective (hv.symm.trans he)]

theorem Findings.nil : Findings rules [] := List.forall_mem_nil _

theorem Findings.singleton (h : v.Found rules) : Findings rules [v] := List.forall_mem_singleton.2 h

theorem Findings.append (h : Findings rules vs) (k : Findings rules ws) :
    Findings rules (vs ++ ws) :=
  List.forall_mem_append.2 ⟨h, k⟩

theorem Findings.ite {c : Prop} [Decidable c] (h : Findings rules vs) (k : Findings rules ws) :
    Findings rules (if c then vs else ws) := by
  split
  · exact h
  · exact k

theorem Findings.mono (h : Findings rules vs) (hm : ∀ r, rules r → more r) : Findings more vs :=
  fun v hv => (h v hv).mono hm

/-- Breaches of one rule are breaches of some of many. -/
theorem Findings.among (h : Findings (· = r) vs) (hr : rules r) : Findings rules vs :=
  h.mono fun _ hs => hs ▸ hr

theorem Findings.map {α : Type*} {l : List α} {f : α → Violation} (h : ∀ a ∈ l, (f a).Found rules) :
    Findings rules (l.map f) :=
  List.forall_mem_map.2 h

theorem Findings.flatMap {α : Type*} {l : List α} {f : α → List Violation}
    (h : ∀ a ∈ l, Findings rules (f a)) : Findings rules (l.flatMap f) := fun v hv => by
  obtain ⟨a, ha, hv⟩ := List.mem_flatMap.1 hv
  exact h a ha v hv

theorem Findings.inFile (h : Findings rules vs) (p : Path) : Findings rules (vs.map (·.inFile p)) :=
  .map fun v hv => (h v hv).inFile p

/-- The breaches of one rule. -/
def ofRule (r : Rule) (vs : List Violation) : List Violation := vs.filter (·.rule == r.id)

@[simp] theorem ofRule_append (r : Rule) (vs ws : List Violation) :
    ofRule r (vs ++ ws) = ofRule r vs ++ ofRule r ws :=
  List.filter_append ..

theorem ofRule_eq_nil (h : Findings rules vs) (hr : ¬ rules r) : ofRule r vs = [] := by
  rw [ofRule, List.filter_eq_nil_iff]
  exact fun v hv hb => hr ((h v hv).rules_of_id (beq_iff_eq.1 hb))

theorem ofRule_eq_self (h : Findings (· = r) vs) : ofRule r vs = vs := by
  rw [ofRule, List.filter_eq_self]
  intro v hv
  obtain ⟨s, rfl, he, -⟩ := (h v hv).rule
  exact beq_iff_eq.2 he

theorem ofRule_map_inFile (r : Rule) (vs : List Violation) (p : Path) :
    ofRule r (vs.map (·.inFile p)) = (ofRule r vs).map (·.inFile p) :=
  List.filter_map ..

/-- A report has what was found, in another order. -/
theorem perm_sort (vs : List Violation) : (sort vs).Perm vs := List.mergeSort_perm vs le

end Violation

/-- Of two selections, the narrower one shows the same just where it leaves nothing out. -/
theorem map_filter_eq_iff {α β : Type*} {l : List α} {wide narrow : α → Bool} {f : α → β}
    (h : ∀ a, narrow a = true → wide a = true) :
    (l.filter wide).map f = (l.filter narrow).map f ↔ ∀ a ∈ l, wide a = true → narrow a = true := by
  have hnarrow : (l.filter wide).filter narrow = l.filter narrow := by
    rw [List.filter_filter]
    exact List.filter_congr fun a _ => by cases hn : narrow a <;> simp [h a, hn]
  refine ⟨fun he a ha hw => ?_, fun hall => ?_⟩
  · have hlength : ((l.filter wide).filter narrow).length = (l.filter wide).length := by
      simpa [hnarrow] using (congrArg List.length he).symm
    exact List.length_filter_eq_length_iff.1 hlength a (List.mem_filter.2 ⟨ha, hw⟩)
  · rw [← hnarrow,
      List.filter_eq_self.2 fun a ha => hall a (List.mem_filter.1 ha).1 (List.mem_filter.1 ha).2]

theorem nodup_eraseDups (texts : List String) : texts.eraseDups.Nodup := by
  induction h : texts.length using Nat.strongRecOn generalizing texts with
  | ind n ih =>
    cases texts with
    | nil => exact .nil
    | cons text texts =>
      have hshort : (texts.filter fun other => !other == text).length < n :=
        h ▸ Nat.lt_succ_of_le (List.length_filter_le _ _)
      rw [List.eraseDups_cons, List.nodup_cons]
      exact ⟨by simp [List.mem_eraseDups], ih _ hshort _ rfl⟩

/-- A reading that passes a test has an outcome, and that passes it. -/
theorem exists_ok_of_any {ε α : Type*} {read : Except ε α} {p : α → Bool}
    (h : read.toOption.any p = true) :
    ∃ a, read = .ok a ∧ p a = true := by
  cases read with
  | error e => simp [Except.toOption] at h
  | ok a => exact ⟨a, rfl, by simpa [Except.toOption] using h⟩

end QualityGate
