import QualityGate.Graph.Cycle
import QualityGate.Proofs.Graph.Walk

/-!
The parents that a breadth-first search notes. Each file is noted once, after the file that led to
it, so parents only lead to files that were noted earlier, and at last to the start: the way back is
a walk of imports, without a file taken twice, and no longer than the notes.
-/
namespace QualityGate.Graph

/-- The files that were reached, with the ones that led to them. -/
def Reached.links (r : Reached) : List (FileId × FileId) :=
  r.parents.map fun entry => (entry.1.components, entry.2.components)

def keys (links : List (FileId × FileId)) : List FileId := links.map Prod.fst

@[simp] theorem keys_nil : keys [] = [] := rfl

@[simp] theorem keys_cons (t p : FileId) (links : List (FileId × FileId)) :
    keys ((t, p) :: links) = t :: keys links := rfl

/-- Each file is led to by the start `s` or by a file that was reached before it, which imports
it. -/
inductive Rooted (g : Graph) (s : FileId) : List (FileId × FileId) → Prop
  | nil : Rooted g s []
  | cons {t p : FileId} {links : List (FileId × FileId)} (older : Rooted g s links) (hs : t ≠ s)
      (fresh : t ∉ keys links) (parent : p ∈ s :: keys links) (edge : g.Edge p t) :
      Rooted g s ((t, p) :: links)

/-- The files on the way from the start to `a`, that one included. -/
def way : List (FileId × FileId) → FileId → List FileId
  | [], _ => []
  | (t, p) :: links, a => if a = t then way links p ++ [t] else way links a

section Way

variable {links : List (FileId × FileId)} {a p t : FileId}

theorem way_cons_self : way ((t, p) :: links) t = way links p ++ [t] := if_pos rfl

theorem way_cons_of_ne (h : a ≠ t) : way ((t, p) :: links) a = way links a := if_neg h

theorem way_eq_nil (h : a ∉ keys links) : way links a = [] := by
  induction links with
  | nil => rfl
  | cons link links ih =>
    rw [keys_cons, List.mem_cons, not_or] at h
    rw [way_cons_of_ne h.1, ih h.2]

theorem way_subset : way links a ⊆ keys links := by
  induction links generalizing a with
  | nil => exact List.nil_subset _
  | cons link links ih =>
    by_cases h : a = link.1
    · subst h
      rw [way_cons_self, keys_cons]
      exact List.append_subset.2 ⟨List.subset_cons_of_subset _ ih, by simp⟩
    · rw [way_cons_of_ne h]
      exact List.subset_cons_of_subset _ ih

theorem length_way_le : (way links a).length ≤ links.length := by
  induction links generalizing a with
  | nil => exact Nat.le_refl 0
  | cons link links ih =>
    by_cases h : a = link.1
    · subst h
      rw [way_cons_self, List.length_append]
      exact Nat.succ_le_succ ih
    · rw [way_cons_of_ne h]
      exact Nat.le_succ_of_le ih

end Way

namespace Rooted

variable {g : Graph} {s : FileId} {links : List (FileId × FileId)} {a b p : FileId}

theorem start_not_mem (h : Rooted g s links) : s ∉ keys links := by
  induction h with
  | nil => exact List.not_mem_nil
  | cons _ hs _ _ _ ih => exact List.not_mem_cons_of_ne_of_not_mem hs.symm ih

theorem way_start (h : Rooted g s links) : way links s = [] := way_eq_nil h.start_not_mem

theorem nodup_way (h : Rooted g s links) : (way links a).Nodup := by
  induction h generalizing a with
  | nil => exact List.nodup_nil
  | @cons t p links _ _ fresh _ _ ih =>
    by_cases ha : a = t
    · have hfresh : t ∉ way links p := fun ht => fresh (way_subset ht)
      simpa [ha, way_cons_self] using (ih (a := p)).concat hfresh
    · rw [way_cons_of_ne ha]
      exact ih

/-- The way to a file goes over its parent. -/
theorem way_eq_concat (h : Rooted g s links) (hp : (a, p) ∈ links) :
    way links a = way links p ++ [a] ∧ p ∈ s :: keys links := by
  induction h generalizing a p with
  | nil => exact absurd hp List.not_mem_nil
  | @cons t q links _ hs fresh parent _ ih =>
    have hold {c : FileId} (hc : c ∈ s :: keys links) : c ≠ t := by
      rintro rfl
      exact (List.mem_cons.1 hc).elim hs fresh
    have hkeys {c : FileId} (hc : c ∈ s :: keys links) : c ∈ s :: keys ((t, q) :: links) :=
      List.cons_subset_cons s (List.subset_cons_self t _) hc
    rcases List.mem_cons.1 hp with hp | hp
    · obtain ⟨rfl, rfl⟩ := Prod.mk.inj hp
      exact ⟨by rw [way_cons_self, way_cons_of_ne (hold parent)], hkeys parent⟩
    · obtain ⟨hway, hmem⟩ := ih hp
      have ha : a ∈ keys links := List.mem_map_of_mem hp
      exact ⟨by rw [way_cons_of_ne (hold (List.mem_cons_of_mem s ha)),
        way_cons_of_ne (hold hmem), hway], hkeys hmem⟩

/-- The way to a file, and from it to a file that it imports, is a walk of imports. -/
theorem isChain_way (h : Rooted g s links) (ha : a ∈ s :: keys links) (hb : g.Edge a b) :
    (s :: way links a ++ [b]).IsChain g.Edge := by
  induction h generalizing a b with
  | nil =>
    obtain rfl := List.mem_singleton.1 ha
    simpa [way] using hb
  | @cons t p links _ _ _ parent edge ih =>
    by_cases hat : a = t
    · subst hat
      have hend : (a :: [b]).IsChain g.Edge := by simpa using hb
      rw [way_cons_self]
      simpa using (ih parent edge).append_overlap hend (by simp)
    · rw [way_cons_of_ne hat]
      exact ih (by simpa [hat] using ha) hb

end Rooted

namespace Reached

variable {g : Graph} {r : Reached} {start p q : Path}

theorem mem_links_of_parent? (h : r.parent? p = some q) :
    (p.components, q.components) ∈ r.links := by
  obtain ⟨entry, he, rfl⟩ := Option.map_eq_some_iff.1 h
  have hsame : entry.1.components = p.components :=
    Path.same_iff.1 (by simpa using List.find?_some he)
  exact List.mem_map.2 ⟨entry, List.mem_of_find?_eq_some he, by rw [hsame]⟩

theorem isSome_parent? : (r.parent? p).isSome ↔ p.components ∈ keys r.links := by
  simp [parent?, links, keys, Path.same_iff]

/-- The loop over the parents comes to a file that the start led to, and answers the way from
there. -/
theorem exists_wayTo? (h : Rooted g start.components r.links) {fuel : Nat} {later : List Path}
    (hp : p.components ∈ keys r.links) (hf : (way r.links p.components).length ≤ fuel) :
    ∃ first rest, r.wayTo? start fuel p later = some (first :: rest) ∧
      (∃ q, r.parent? first = some q ∧ q.components = start.components) ∧
      ids (first :: rest) = way r.links p.components ++ ids later := by
  induction fuel generalizing p later with
  | zero =>
    obtain ⟨q, hq⟩ := Option.isSome_iff_exists.1 (isSome_parent?.2 hp)
    simp [(h.way_eq_concat (mem_links_of_parent? hq)).1] at hf
  | succ fuel ih =>
    obtain ⟨q, hq⟩ := Option.isSome_iff_exists.1 (isSome_parent?.2 hp)
    obtain ⟨hway, hmem⟩ := h.way_eq_concat (mem_links_of_parent? hq)
    by_cases hs : q.components = start.components
    · have hnil : way r.links q.components = [] := hs ▸ h.way_start
      refine ⟨p, later, ?_, ⟨q, hq, hs⟩, by rw [hway, hnil, List.nil_append, ids_cons,
        List.singleton_append]⟩
      simp only [wayTo?, hq, Path.same_iff.2 hs, if_true]
    · have hkey : q.components ∈ keys r.links := (List.mem_cons.1 hmem).resolve_left hs
      have hle : (way r.links q.components).length ≤ fuel := by
        rw [hway, List.length_append] at hf
        exact Nat.le_of_succ_le_succ hf
      obtain ⟨first, rest, hrest, hparent, hids⟩ := @ih q (p :: later) hkey hle
      refine ⟨first, rest, ?_, hparent, by rw [hids, hway, ids_cons, List.append_assoc,
        List.singleton_append]⟩
      have hsame : q.same start = false := by simpa [← Path.same_iff] using hs
      simpa only [wayTo?, hq, hsame, Bool.false_eq_true, if_false] using hrest

end Reached
end QualityGate.Graph
