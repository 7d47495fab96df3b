import QualityGate.Graph
import Mathlib.Order.Basic
import Mathlib.Data.List.Nodup
import Mathlib.Tactic.Tauto

/-!
Paths by what they name. Two paths of equal components name one file, and `before` puts the files,
not their spellings, into a strict total order; a list that is kept in this order has each file
once.
-/
namespace QualityGate

/-- A file, as all paths of the same components name it. -/
abbrev FileId := List Component

def ids (ps : List Path) : List FileId := ps.map Path.components

@[simp] theorem ids_nil : ids [] = [] := rfl

@[simp] theorem ids_cons (p : Path) (ps : List Path) : ids (p :: ps) = p.components :: ids ps := rfl

@[simp] theorem ids_append (ps qs : List Path) : ids (ps ++ qs) = ids ps ++ ids qs :=
  List.map_append

@[simp] theorem ids_reverse (ps : List Path) : ids ps.reverse = (ids ps).reverse := List.map_reverse

@[simp] theorem ids_dropLast (ps : List Path) : ids ps.dropLast = (ids ps).dropLast :=
  List.map_dropLast

@[simp] theorem ids_length (ps : List Path) : (ids ps).length = ps.length := List.length_map _

@[simp] theorem ids_eq_nil {ps : List Path} : ids ps = [] ↔ ps = [] := List.map_eq_nil_iff

theorem mem_ids {ps : List Path} {a : FileId} : a ∈ ids ps ↔ ∃ p ∈ ps, p.components = a :=
  List.mem_map

theorem mem_ids_of_mem {ps : List Path} {p : Path} (h : p ∈ ps) : p.components ∈ ids ps :=
  List.mem_map_of_mem h

namespace Component

theorem lt_name {a b : String} : (name a).lt (name b) = true ↔ a < b := decide_eq_true_iff

theorem lt_of_rank_lt {a b : Component} (h : a.rank < b.rank) : a.lt b = true := by
  unfold lt
  split
  · exact absurd h (Nat.lt_irrefl _)
  · exact decide_eq_true h

/-- Components are ordered by rank, and names among themselves as texts. -/
theorem lt_cases {a b : Component} (h : a.lt b = true) :
    a.rank < b.rank ∨ ∃ s t, a = name s ∧ b = name t ∧ s < t := by
  unfold lt at h
  split at h
  · exact .inr ⟨_, _, rfl, rfl, of_decide_eq_true h⟩
  · exact .inl (of_decide_eq_true h)

theorem lt_irrefl (a : Component) : a.lt a = false := by
  by_contra h
  rcases lt_cases (by simpa using h) with h | ⟨s, t, rfl, hs, h⟩
  · exact Nat.lt_irrefl _ h
  · injection hs with hs
    exact String.lt_irrefl s (hs ▸ h)

theorem lt_trans {a b c : Component} (hab : a.lt b = true) (hbc : b.lt c = true) :
    a.lt c = true := by
  rcases lt_cases hab with hab | ⟨s, t, rfl, rfl, hst⟩
  · rcases lt_cases hbc with hbc | ⟨t, u, rfl, rfl, -⟩
    · exact lt_of_rank_lt (Nat.lt_trans hab hbc)
    · exact lt_of_rank_lt hab
  · rcases lt_cases hbc with hbc | ⟨t', u, ht, rfl, htu⟩
    · exact lt_of_rank_lt hbc
    · injection ht with ht
      exact lt_name.2 (String.lt_trans hst (ht ▸ htu))

theorem eq_or_rank_ne (a b : Component) :
    a = b ∨ a.rank ≠ b.rank ∨ ∃ s t, a = name s ∧ b = name t := by
  cases a <;> cases b <;> simp [rank]

theorem lt_total {a b : Component} (h : a ≠ b) : a.lt b = true ∨ b.lt a = true := by
  rcases eq_or_rank_ne a b with he | hr | ⟨s, t, rfl, rfl⟩
  · exact absurd he h
  · exact (Nat.lt_or_gt_of_ne hr).imp lt_of_rank_lt lt_of_rank_lt
  · have hst : s ≠ t := fun hs => h (hs ▸ rfl)
    by_cases hlt : s < t
    · exact .inl (lt_name.2 hlt)
    · exact .inr (lt_name.2 (Decidable.byContradiction fun hn => hst (String.le_antisymm hn hlt)))

end Component

namespace Path

theorem same_iff {p q : Path} : p.same q = true ↔ p.components = q.components := by
  simp [same]

theorem ltComponents_irrefl (a : FileId) : ltComponents a a = false := by
  induction a with
  | nil => rfl
  | cons x xs ih => simp [ltComponents, ih]

theorem ltComponents_trans {a b c : FileId} (hab : ltComponents a b = true)
    (hbc : ltComponents b c = true) : ltComponents a c = true := by
  induction a generalizing b c with
  | nil =>
    cases b with
    | nil => simp [ltComponents] at hab
    | cons y ys => cases c <;> simp_all [ltComponents]
  | cons x xs ih =>
    cases b with
    | nil => simp [ltComponents] at hab
    | cons y ys =>
      cases c with
      | nil => simp [ltComponents] at hbc
      | cons z zs =>
        simp only [ltComponents] at hab hbc ⊢
        by_cases hxy : x = y
        · subst hxy
          by_cases hxz : x = z
          · simp_all only [if_true]
            exact ih hab hbc
          · simp_all
        · by_cases hyz : y = z
          · subst hyz
            simp_all
          · rw [if_neg hxy] at hab
            rw [if_neg hyz] at hbc
            have hxz : x ≠ z := by
              rintro rfl
              simpa [Component.lt_irrefl] using Component.lt_trans hab hbc
            rw [if_neg hxz]
            exact Component.lt_trans hab hbc

theorem ltComponents_total {a b : FileId} (h : a ≠ b) :
    ltComponents a b = true ∨ ltComponents b a = true := by
  induction a generalizing b with
  | nil =>
    cases b with
    | nil => exact absurd rfl h
    | cons y ys => exact .inl rfl
  | cons x xs ih =>
    cases b with
    | nil => exact .inr rfl
    | cons y ys =>
      simp only [ltComponents]
      by_cases hxy : x = y
      · subst hxy
        simpa using ih (b := ys) (fun hs => h (hs ▸ rfl))
      · simpa [hxy, Ne.symm hxy] using Component.lt_total hxy

theorem before_trans {p q r : Path} (hpq : p.before q = true) (hqr : q.before r = true) :
    p.before r = true :=
  ltComponents_trans hpq hqr

theorem not_before_of_before {p q : Path} (h : p.before q = true) : q.before p = false := by
  by_contra hn
  have hp := before_trans h (by simpa using hn)
  simp [before, ltComponents_irrefl] at hp

theorem ne_of_before {p q : Path} (h : p.before q = true) : p.components ≠ q.components := by
  intro he
  simp [before, he, ltComponents_irrefl] at h

/-- Paths of which neither comes first name one file. -/
theorem components_eq_of_not_before {p q : Path} (hpq : p.before q = false)
    (hqp : q.before p = false) :
    p.components = q.components := by
  by_contra hne
  rcases ltComponents_total hne with h | h
  · simp [before, h] at hpq
  · simp [before, h] at hqp

theorem le_total (p q : Path) : (p.le q || q.le p) = true := by
  cases hqp : q.before p with
  | false => simp [le, hqp]
  | true => simp [le, not_before_of_before hqp]

theorem le_trans {p q r : Path} (hpq : p.le q = true) (hqr : q.le r = true) : p.le r = true := by
  simp only [le, Bool.not_eq_true'] at hpq hqr ⊢
  by_contra hrp
  rw [Bool.not_eq_false] at hrp
  cases hp : p.before q with
  | true => exact Bool.false_ne_true (hqr.symm.trans (before_trans hrp hp))
  | false =>
    rw [before, ← components_eq_of_not_before hp hpq] at hqr
    exact Bool.false_ne_true (hqr.symm.trans hrp)

end Path

theorem holds_iff {ps : List Path} {p : Path} : holds ps p = true ↔ p.components ∈ ids ps := by
  simp [holds, Path.same_iff, mem_ids]

theorem holds_eq_false_iff {ps : List Path} {p : Path} :
    holds ps p = false ↔ p.components ∉ ids ps := by
  rw [← holds_iff, Bool.not_eq_true]

theorem mem_ids_insertPath {p : Path} {ps : List Path} {a : FileId} :
    a ∈ ids (insertPath p ps) ↔ a = p.components ∨ a ∈ ids ps := by
  induction ps with
  | nil => simp [insertPath]
  | cons q ps ih =>
    simp only [insertPath]
    split_ifs with hs hb
    · rw [ids_cons, List.mem_cons, Path.same_iff.1 hs]
      tauto
    · rw [ids_cons, List.mem_cons]
    · rw [ids_cons, List.mem_cons, ih, ids_cons, List.mem_cons, or_left_comm]

theorem mem_of_mem_insertPath {p q : Path} {ps : List Path} (h : q ∈ insertPath p ps) :
    q = p ∨ q ∈ ps := by
  induction ps with
  | nil => exact .inl (List.mem_singleton.1 h)
  | cons r ps ih =>
    rw [insertPath] at h
    split_ifs at h
    · exact .inr h
    · exact List.mem_cons.1 h
    · rcases List.mem_cons.1 h with rfl | h
      · exact .inr List.mem_cons_self
      · exact (ih h).imp_right (List.mem_cons_of_mem _)

theorem pairwise_insertPath (p : Path) {ps : List Path}
    (h : ps.Pairwise fun q r => q.before r = true) :
    (insertPath p ps).Pairwise fun q r => q.before r = true := by
  induction ps with
  | nil => exact List.pairwise_singleton _ _
  | cons r ps ih =>
    obtain ⟨hr, hps⟩ := List.pairwise_cons.1 h
    rw [insertPath]
    split_ifs with hs hb
    · exact h
    · refine List.pairwise_cons.2 ⟨fun q hq => ?_, h⟩
      rcases List.mem_cons.1 hq with rfl | hq
      · exact hb
      · exact Path.before_trans hb (hr q hq)
    · refine List.pairwise_cons.2 ⟨fun q hq => ?_, ih hps⟩
      rcases mem_of_mem_insertPath hq with rfl | hq
      · exact (Path.ltComponents_total (mt Path.same_iff.2 hs)).resolve_left hb
      · exact hr q hq

/-- Paths put into an ordered list, one for each file. -/
def inOrder (ps : List Path) : List Path := ps.foldl (fun kept p => insertPath p kept) []

theorem foldl_insertPath_spec (ps kept : List Path)
    (h : kept.Pairwise fun q r => q.before r = true) :
    let all := ps.foldl (fun kept p => insertPath p kept) kept
    all.Pairwise (fun q r => q.before r = true) ∧ (∀ p ∈ all, p ∈ ps ∨ p ∈ kept) ∧
      ∀ a, a ∈ ids all ↔ a ∈ ids ps ∨ a ∈ ids kept := by
  induction ps generalizing kept with
  | nil => exact ⟨h, fun _ => .inr, by simp⟩
  | cons p ps ih =>
    obtain ⟨hordered, hmem, hids⟩ := ih (insertPath p kept) (pairwise_insertPath p h)
    refine ⟨hordered, fun q hq => ?_, fun a => ?_⟩
    · rcases hmem q hq with hq | hq
      · exact .inl (List.mem_cons_of_mem _ hq)
      · rcases mem_of_mem_insertPath hq with rfl | hq
        · exact .inl List.mem_cons_self
        · exact .inr hq
    · rw [List.foldl_cons, hids, mem_ids_insertPath, ids_cons, List.mem_cons]
      tauto

theorem mem_of_mem_inOrder {ps : List Path} {p : Path} (h : p ∈ inOrder ps) : p ∈ ps :=
  ((foldl_insertPath_spec ps [] .nil).2.1 p h).resolve_right List.not_mem_nil

theorem mem_ids_inOrder {ps : List Path} {a : FileId} : a ∈ ids (inOrder ps) ↔ a ∈ ids ps := by
  rw [inOrder, (foldl_insertPath_spec ps [] .nil).2.2 a]
  exact or_iff_left List.not_mem_nil

/-- No file is there in two spellings. -/
theorem nodup_ids_inOrder (ps : List Path) : (ids (inOrder ps)).Nodup :=
  List.pairwise_map.2 ((foldl_insertPath_spec ps [] .nil).1.imp Path.ne_of_before)

/-- One file is found once among different files. -/
theorem filter_same_eq_singleton {α : Type*} {f : α → Path} {l : List α}
    (hn : (ids (l.map f)).Nodup) {a : α} (ha : a ∈ l) {p : Path}
    (hp : (f a).components = p.components) :
    (l.filter fun b => (f b).same p) = [a] := by
  obtain ⟨front, back, rfl⟩ := List.append_of_mem ha
  rw [ids, List.map_map, List.map_append, List.map_cons, List.nodup_middle, List.nodup_cons,
    ← List.map_append] at hn
  have hother : ∀ b ∈ front ++ back, ¬ (f b).same p = true := fun b hb hs =>
    hn.1 (List.mem_map.2 ⟨b, hb, (Path.same_iff.1 hs).trans hp.symm⟩)
  have hfront : (front.filter fun b => (f b).same p) = [] :=
    List.filter_eq_nil_iff.2 fun b hb => hother b (List.mem_append_left _ hb)
  have hback : (back.filter fun b => (f b).same p) = [] :=
    List.filter_eq_nil_iff.2 fun b hb => hother b (List.mem_append_right _ hb)
  have hsame : (f a).same p = true := Path.same_iff.2 hp
  simp [hfront, hback, hsame]

end QualityGate
