import QualityGate.Proofs.Graph.DepthFirst

/-!
The cycles that a graph lists. They are rings of distinct files, each ring is listed once, and every
file that reaches itself has a listed cycle among the files that it reaches and that reach it. The
file itself need not lie on a listed cycle, but every walk that comes back to it takes the last
step of one.
-/
namespace QualityGate.Graph

open Relation

variable {g : Graph}

/-- No two listed cycles are rotations of one another. -/
theorem cycles_pairwise_not_isRotated (g : Graph) :
    g.cycles.Pairwise fun c d => ¬ (ids c).dropLast ~r (ids d).dropLast := by
  have hd := g.searched_sound.distinct
  rw [g.searched_sound.rings, List.nodup_reverse, ← cycles_eq, List.Nodup, List.pairwise_map] at hd
  refine hd.imp_of_mem fun {c d} hc _ hne hr => hne ?_
  obtain ⟨a, rest, he, hn, -⟩ := isCycle_of_mem hc
  have hn' : (ids c.dropLast).Nodup := by rwa [ids_dropLast, he, List.dropLast_concat]
  exact Search.ids_canonical_eq_of_isRotated hn' (by simpa using hr)

/-- All files of a cycle lie on the way from the end of its last import back to its beginning. -/
theorem IsCycle.reaches {cycle : List Path} (h : g.IsCycle cycle) {a b : FileId}
    (hl : [a, b] <:+ ids cycle) {u : FileId}
    (hu : u ∈ ids cycle) : ReflTransGen g.Edge b u ∧ ReflTransGen g.Edge u a := by
  obtain ⟨first, rest, he, -, hc⟩ := h
  obtain ⟨front, hf⟩ := hl
  have hring : (first :: rest) ++ [first] = (front ++ [a]) ++ [b] := by rw [← he, ← hf]; simp
  obtain ⟨hfront, hb⟩ := List.append_inj' hring rfl
  obtain rfl : first = b := List.singleton_inj.1 hb
  have hua : u ∈ front ++ [a] := by
    rw [he, List.mem_append, List.mem_singleton] at hu
    rcases hu with hu | rfl
    · exact hfront ▸ hu
    · exact hfront ▸ List.mem_cons_self
  rw [he] at hc hu
  exact ⟨reaches_of_isChain hc hu, reaches_last_of_isChain (hfront ▸ hc.left_of_append) hua⟩

theorem ClosedBy.edge {a b : FileId} (h : ClosedBy g.cycles a b) : g.Edge a b := by
  obtain ⟨cycle, hc, hs⟩ := h
  obtain ⟨_, _, -, -, hchain⟩ := isCycle_of_mem hc
  exact (List.isChain_cons_cons.1 (hchain.suffix hs)).1

def TakesLast (cycle : List Path) (walk : List FileId) : Prop :=
  ∃ a b, [a, b] <:+ ids cycle ∧ [a, b] <:+: walk

/-- A walk that comes back takes the last import of a listed cycle, whose files all lie on cycles
with it. -/
theorem exists_takesLast {v : FileId} {inner : List FileId}
    (h : (v :: inner ++ [v]).IsChain g.Edge) :
    ∃ cycle ∈ g.cycles, TakesLast cycle (v :: inner ++ [v]) ∧
      ∀ u ∈ ids cycle, TransGen g.Edge v u ∧ TransGen g.Edge u v := by
  obtain ⟨a, b, hclosed, hab⟩ := exists_closing_step h
  have hedge := hclosed.edge
  have ha : ReflTransGen g.Edge v a := reaches_of_isChain h (hab.subset (by simp))
  have hb : ReflTransGen g.Edge b v := reaches_last_of_isChain h (hab.subset (by simp))
  obtain ⟨cycle, hc, hl⟩ := hclosed
  refine ⟨cycle, hc, ⟨a, b, hl, hab⟩, fun u hu => ?_⟩
  obtain ⟨hbu, hua⟩ := (isCycle_of_mem hc).reaches hl hu
  exact ⟨(TransGen.tail' ha hedge).trans_left hbu, (TransGen.tail' hua hedge).trans_left hb⟩

/-- A file that reaches itself reaches all files of some listed cycle, and is reached from them. -/
theorem exists_cycle_of_transGen {v : FileId} (h : TransGen g.Edge v v) :
    ∃ cycle ∈ g.cycles, ∀ u ∈ ids cycle, TransGen g.Edge v u ∧ TransGen g.Edge u v := by
  obtain ⟨inner, hchain⟩ := exists_isChain_of_transGen h
  obtain ⟨cycle, hc, -, hall⟩ := exists_takesLast hchain
  exact ⟨cycle, hc, hall⟩

theorem cycles_eq_nil_iff (g : Graph) : g.cycles = [] ↔ ∀ v, ¬ TransGen g.Edge v v := by
  constructor
  · intro hn v hv
    obtain ⟨cycle, hc, -⟩ := exists_cycle_of_transGen hv
    simp [hn] at hc
  · intro hn
    rw [List.eq_nil_iff_forall_not_mem]
    intro cycle hc
    obtain ⟨first, rest, he, -, hchain⟩ := isCycle_of_mem hc
    exact hn first (transGen_of_isChain (he ▸ hchain))

/-- The listed cycles are rings of distinct files, no two are rotations of one another, and a file
on any cycle has a listed one among the files that it reaches and that reach it. In particular
nothing is listed only where no file reaches itself. -/
theorem cycles_sound_distinct_complete (g : Graph) :
    (∀ cycle ∈ g.cycles, g.IsCycle cycle) ∧
      (g.cycles.Pairwise fun c d => ¬ (ids c).dropLast ~r (ids d).dropLast) ∧
      (∀ v, TransGen g.Edge v v →
        ∃ cycle ∈ g.cycles, ∀ u ∈ ids cycle, TransGen g.Edge v u ∧ TransGen g.Edge u v) ∧
      (g.cycles = [] ↔ ∀ v, ¬ TransGen g.Edge v v) :=
  ⟨fun _ => isCycle_of_mem, cycles_pairwise_not_isRotated g, fun _ => exists_cycle_of_transGen,
    cycles_eq_nil_iff g⟩

end QualityGate.Graph
