import QualityGate.Graph.Cycle
import QualityGate.Proofs.Path.Order
import Mathlib.Data.List.Rotate

/-!
Rings of files. The canonical reading of a ring is the same for all its rotations, and for nothing
else.
-/
namespace QualityGate

namespace Path

theorem not_before_trans {p q r : Path} (hpq : p.before q = false) (hqr : q.before r = false) :
    p.before r = false := by
  by_contra h
  rw [Bool.not_eq_false] at h
  by_cases hc : p.components = q.components
  · exact absurd h (by simpa [before, hc] using hqr)
  · rcases ltComponents_total hc with hlt | hlt
    · exact absurd hlt (by simpa [before] using hpq)
    · exact absurd (before_trans hlt h) (by simpa using hqr)

end Path

namespace Graph.Search

theorem sameAll_iff {ps qs : List Path} : sameAll ps qs = true ↔ ids ps = ids qs := by
  simp [sameAll, ids]

theorem least_mem (p : Path) (ps : List Path) : least p ps ∈ p :: ps := by
  induction ps generalizing p with
  | nil => exact List.mem_cons_self
  | cons q qs ih =>
    rw [least]
    have hm := ih (if q.before p then q else p)
    split_ifs at hm ⊢
    · exact List.mem_cons_of_mem _ hm
    · exact ((List.sublist_cons_self q qs).cons_cons p).subset hm

/-- Nothing on a list comes before its least path. -/
theorem not_before_least (p : Path) (ps : List Path) :
    ∀ q ∈ p :: ps, q.before (least p ps) = false := by
  induction ps generalizing p with
  | nil =>
    intro q hq
    rw [List.mem_singleton.1 hq]
    exact Path.ltComponents_irrefl _
  | cons q qs ih =>
    intro r hr
    rw [least]
    by_cases hqp : q.before p = true
    · rw [if_pos hqp]
      rcases List.mem_cons.1 hr with rfl | hr
      · exact Path.not_before_trans (Path.not_before_of_before hqp) (ih q q List.mem_cons_self)
      · exact ih q r hr
    · rw [if_neg hqp]
      rw [Bool.not_eq_true] at hqp
      rcases List.mem_cons.1 hr with rfl | hr
      · exact ih r r List.mem_cons_self
      · rcases List.mem_cons.1 hr with rfl | hr
        · exact Path.not_before_trans hqp (ih p p List.mem_cons_self)
        · exact ih p r (List.mem_cons_of_mem _ hr)

theorem canonical_cons (p : Path) (ps : List Path) :
    canonical (p :: ps) = (p :: ps).dropWhile (fun q => !q.same (least p ps))
      ++ (p :: ps).takeWhile fun q => !q.same (least p ps) := by
  simp [canonical, List.span_eq_takeWhile_dropWhile]

theorem canonical_isRotated (ring : List Path) : canonical ring ~r ring := by
  cases ring with
  | nil => exact .refl _
  | cons p ps =>
    rw [canonical_cons]
    exact List.isRotated_append.trans (by rw [List.takeWhile_append_dropWhile])

/-- What stands before a file on a list is left out, and nothing where the file is not on it. -/
theorem dropWhile_not_same {ps : List Path} {t : Path} (h : t.components ∈ ids ps) :
    ∃ q rest, ps.dropWhile (fun p => !p.same t) = q :: rest ∧ q.components = t.components := by
  induction ps with
  | nil => simp at h
  | cons p ps ih =>
    by_cases hp : p.same t = true
    · exact ⟨p, ps, by simp [hp], Path.same_iff.1 hp⟩
    · have ht : t.components ∈ ids ps := by
        rcases List.mem_cons.1 h with he | ht
        · exact absurd (Path.same_iff.2 he.symm) hp
        · exact ht
      obtain ⟨q, rest, hd, hq⟩ := ih ht
      exact ⟨q, rest, by simpa [hp] using hd, hq⟩

theorem head_canonical (p : Path) (ps : List Path) :
    (ids (canonical (p :: ps))).head? = some (least p ps).components := by
  obtain ⟨q, rest, hd, hq⟩ := dropWhile_not_same (mem_ids_of_mem (least_mem p ps))
  rw [canonical_cons, hd]
  exact congrArg some hq

/-- A list without repetitions has one rotation for each member to begin with. -/
theorem eq_of_isRotated_of_head {α : Type*} {l m : List α} (hn : l.Nodup) (h : l ~r m)
    (hh : l.head? = m.head?) : l = m := by
  obtain ⟨n, rfl⟩ := h
  cases l with
  | nil => simp
  | cons a l =>
    have hlt : n % (a :: l).length < (a :: l).length := Nat.mod_lt _ (by simp)
    rw [← List.rotate_mod, List.head?_rotate hlt] at hh
    rw [List.getElem?_eq_getElem hlt] at hh
    have hfirst : (a :: l)[0] = (a :: l)[n % (a :: l).length] := Option.some.inj hh
    have hz : 0 = n % (a :: l).length := hn.getElem_inj_iff.1 hfirst
    rw [← List.rotate_mod, ← hz, List.rotate_zero]

/-- Rotations of one ring read the same from their least file on. -/
theorem ids_canonical_eq_of_isRotated {ring other : List Path} (hn : (ids ring).Nodup)
    (h : ids ring ~r ids other) : ids (canonical ring) = ids (canonical other) := by
  have hr : ids (canonical ring) ~r ids ring := (canonical_isRotated ring).map _
  have ho : ids (canonical other) ~r ids other := (canonical_isRotated other).map _
  have hro : ids (canonical ring) ~r ids (canonical other) := (hr.trans h).trans ho.symm
  refine eq_of_isRotated_of_head (hr.nodup_iff.2 hn) hro ?_
  cases ring with
  | nil =>
    have hnil : other = [] := by simpa using List.isRotated_nil_iff'.1 h
    rw [hnil]
  | cons p ps =>
    cases other with
    | nil => simpa using List.isRotated_nil_iff.1 h
    | cons q qs =>
      rw [head_canonical, head_canonical]
      obtain ⟨x, hx, hxc⟩ := mem_ids.1 (h.mem_iff.1 (mem_ids_of_mem (least_mem p ps)))
      obtain ⟨y, hy, hyc⟩ := mem_ids.1 (h.mem_iff.2 (mem_ids_of_mem (least_mem q qs)))
      have hxl := not_before_least q qs x hx
      have hyl := not_before_least p ps y hy
      simp only [Path.before, hxc, hyc] at hxl hyl
      rw [Path.components_eq_of_not_before hxl hyl]

theorem isRotated_of_ids_canonical_eq {ring other : List Path}
    (h : ids (canonical ring) = ids (canonical other)) : ids ring ~r ids other := by
  have hr : ids (canonical ring) ~r ids ring := (canonical_isRotated ring).map _
  have ho : ids (canonical other) ~r ids other := (canonical_isRotated other).map _
  exact hr.symm.trans (h ▸ ho)

end Graph.Search
end QualityGate
