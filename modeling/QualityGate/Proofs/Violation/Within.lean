import QualityGate.Proofs.Violation
import Mathlib.Data.List.Perm.Subperm

/-!
Findings compared without their messages, which show the limits that are set: a list of findings is
within another one that has each of them at least as often.
-/
namespace QualityGate.Violation

/-- What a violation says apart from its message: rule, severity, file, line and column. -/
def spot (v : Violation) : String × Severity × Option String × Option ℕ × Option ℕ :=
  (v.rule, v.severity, v.file, v.line, v.column)

/-- A relation of findings that holds of lists wherever it holds of the parts they are put together
from. -/
structure Additive (R : List Violation → List Violation → Prop) : Prop where
  nil : R [] []
  append : ∀ {us vs ws xs}, R us ws → R vs xs → R (us ++ vs) (ws ++ xs)

theorem Additive.flatMap {R : List Violation → List Violation → Prop} (hR : Additive R) {α : Type*}
    {f g : α → List Violation} {l : List α} (h : ∀ a ∈ l, R (f a) (g a)) :
    R (l.flatMap f) (l.flatMap g) := by
  induction l with
  | nil => exact hR.nil
  | cons a l ih =>
    obtain ⟨ha, hl⟩ := List.forall_mem_cons.1 h
    exact hR.append ha (ih hl)

theorem Additive.eq : Additive Eq := ⟨rfl, fun h k => by rw [h, k]⟩

/-- Messages apart, all that is in the first list is in the second one, and at least as often. -/
def Within (vs ws : List Violation) : Prop := (vs.map spot).Subperm (ws.map spot)

namespace Within

variable {us vs ws xs : List Violation}

theorem refl (vs : List Violation) : Within vs vs := List.Subperm.refl _

theorem nil : Within [] vs := List.nil_subperm

theorem of_sublist (h : vs.Sublist ws) : Within vs ws := (h.map spot).subperm

theorem append (h : Within us ws) (k : Within vs xs) : Within (us ++ vs) (ws ++ xs) := by
  rw [Within, List.map_append, List.map_append]
  exact List.Subperm.append h k

theorem additive : Additive Within := ⟨nil, append⟩

theorem flatMap {α : Type*} {f g : α → List Violation} {l : List α}
    (h : ∀ a ∈ l, Within (f a) (g a)) : Within (l.flatMap f) (l.flatMap g) :=
  additive.flatMap h

/-- A breach that is found under the stronger condition is found under the weaker one as well. -/
theorem ite {c d : Prop} [Decidable c] [Decidable d] (hcd : c → d) (h : Within vs ws) :
    Within (if c then vs else []) (if d then ws else []) := by
  split_ifs with hc hd
  · exact h
  · exact absurd (hcd hc) hd
  · exact nil
  · exact nil

theorem singleton {v w : Violation} (h : v.spot = w.spot) : Within [v] [w] := by
  rw [Within, List.map_singleton, List.map_singleton, h]

theorem inFile (h : Within vs ws) (p : Path) :
    Within (vs.map (·.inFile p)) (ws.map (·.inFile p)) := by
  obtain ⟨l, hperm, hsub⟩ := h
  let place (s : String × Severity × Option String × Option ℕ × Option ℕ) :=
    (s.1, s.2.1, some p.text, s.2.2.2)
  have hplace (us : List Violation) : (us.map (·.inFile p)).map spot = (us.map spot).map place := by
    rw [List.map_map, List.map_map]
    rfl
  rw [Within, hplace, hplace]
  exact ⟨l.map place, hperm.map place, hsub.map place⟩

theorem of_perm (h : Within vs ws) (hv : us.Perm vs) (hw : xs.Perm ws) : Within us xs :=
  ((hv.map spot).subperm_right.2 h).trans (hw.map spot).symm.subperm

theorem exists_of_mem (h : Within vs ws) {v : Violation} (hv : v ∈ vs) :
    ∃ w ∈ ws, w.spot = v.spot :=
  List.mem_map.1 (h.subset (List.mem_map_of_mem hv))

end Within

end QualityGate.Violation
