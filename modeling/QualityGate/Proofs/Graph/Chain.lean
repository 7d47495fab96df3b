import QualityGate.Graph.Chain
import QualityGate.Proofs.Graph.BreadthFirst
import Mathlib.Order.Bounds.Basic

/-!
The longest chain of imports. The plain recursion that remembers nothing counts the files of the
longest walk without repetitions, and the search that remembers lengths agrees with it: outside
every cycle a length does not depend on the trail, since no file of the trail can be met again.
-/
namespace QualityGate.Graph

open Relation

variable {g : Graph}

theorem mem_nodes_of_imports {p : Path} (h : g.imports p ≠ []) : p.components ∈ g.nodes := by
  obtain ⟨t, ht⟩ := List.exists_mem_of_ne_nil _ h
  exact (edge_of_mem_imports ht).source_mem_nodes

/-- The length of the longest chain from a file on. A file on the trail adds nothing to a chain, a
file without imports adds one, and any other file one to the longest chain of its imports. -/
def depthFrom (g : Graph) (trail : List Path) (p : Path) : Nat :=
  if holds trail p then 0
  else if g.imports p = [] then 1
  else 1 + ((g.imports p).map fun t => depthFrom g (p :: trail) t).foldl max 0
termination_by g.unseen (ids trail)
decreasing_by
  next hp hi => exact unseen_cons_lt (mem_nodes_of_imports hi) fun hm => hp (holds_iff.2 hm)

theorem le_foldl_max_iff {α : Type*} {f : α → Nat} {n m : Nat} {l : List α} :
    n ≤ (l.map f).foldl max m ↔ n ≤ m ∨ ∃ x ∈ l, n ≤ f x := by
  induction l generalizing m with
  | nil => simp
  | cons x l ih =>
    rw [List.map_cons, List.foldl_cons, ih]
    simp [or_assoc]

/-- A walk without repetitions that begins in `a`, if it is not empty, and does not meet the trail.
-/
structure IsChainFrom (g : Graph) (trail : List FileId) (a : FileId) (walk : List FileId) :
    Prop where
  nodup : walk.Nodup
  imports : walk.IsChain g.Edge
  avoids : ∀ b ∈ walk, b ∉ trail
  head : ∀ b ∈ walk.head?, b = a

theorem IsChainFrom.nil (trail : List FileId) (a : FileId) : g.IsChainFrom trail a [] :=
  ⟨List.nodup_nil, .nil, by simp, by simp⟩

theorem IsChainFrom.cons {trail : List FileId} {a b : FileId} {walk : List FileId} (ha : a ∉ trail)
    (he : g.Edge a b) (h : g.IsChainFrom (a :: trail) b walk) :
      g.IsChainFrom trail a (a :: walk) where
  nodup := List.nodup_cons.2 ⟨fun hm => h.avoids a hm List.mem_cons_self, h.nodup⟩
  imports := List.isChain_cons.2 ⟨fun c hc => h.head c hc ▸ he, h.imports⟩
  avoids c hc := by
    rcases List.mem_cons.1 hc with rfl | hc
    · exact ha
    · exact fun hm => h.avoids c hc (List.mem_cons_of_mem _ hm)
  head c hc := (Option.some.inj hc).symm

theorem IsChainFrom.tail {trail : List FileId} {a b c : FileId} {walk : List FileId}
    (h : g.IsChainFrom trail a (b :: c :: walk)) :
    g.Edge a c ∧ g.IsChainFrom (a :: trail) c (c :: walk) := by
  have hb : b = a := h.head b rfl
  subst hb
  obtain ⟨hn, hnodup⟩ := List.nodup_cons.1 h.nodup
  obtain ⟨he, hchain⟩ := List.isChain_cons_cons.1 h.imports
  refine ⟨he, hnodup, hchain, fun d hd hm => ?_, fun d hd => (Option.some.inj hd).symm⟩
  rcases List.mem_cons.1 hm with rfl | hm
  · exact hn hd
  · exact h.avoids d (List.mem_cons_of_mem _ hd) hm

/-- A file off the trail adds one to the longest chain of its imports, which is 0 if there are none.
-/
theorem depthFrom_of_not_holds {trail : List Path} {p : Path} (hp : ¬ holds trail p = true) :
    g.depthFrom trail p =
      1 + ((g.imports p).map fun t => g.depthFrom (p :: trail) t).foldl max 0 := by
  rw [depthFrom, if_neg hp]
  split_ifs with hi
  · simp [hi]
  · rfl

theorem isChainFrom_of_mem {trail : List FileId} {a : FileId} (ha : a ∈ trail) {walk : List FileId}
    (h : g.IsChainFrom trail a walk) : walk = [] := by
  cases walk with
  | nil => rfl
  | cons b walk => exact absurd (h.head b rfl ▸ ha) (h.avoids b List.mem_cons_self)

theorem IsChainFrom.single {trail : List FileId} {a : FileId} (ha : a ∉ trail) :
    g.IsChainFrom trail a [a] where
  nodup := by simp
  imports := .singleton a
  avoids b hb := by rwa [List.mem_singleton.1 hb]
  head b hb := (Option.some.inj hb).symm

/-- From a file off the trail, a walk of `n + 1` files goes on from one of the imports with `n`. -/
theorem exists_isChainFrom_succ {trail : List Path} {p : Path} {n : Nat}
    (hp : p.components ∉ ids trail) :
    (∃ walk, g.IsChainFrom (ids trail) p.components walk ∧ walk.length = n + 1) ↔
      n = 0 ∨ ∃ t ∈ g.imports p, ∃ walk,
        g.IsChainFrom (ids (p :: trail)) t.components walk ∧ walk.length = n := by
  constructor
  · rintro ⟨walk, hw, hl⟩
    match walk, hw, hl with
    | [_], _, hl => exact .inl (Nat.succ.inj hl).symm
    | _ :: c :: walk, hw, hl =>
      obtain ⟨he, htail⟩ := hw.tail
      obtain ⟨t, ht, rfl⟩ := edge_components.1 he
      exact .inr ⟨t, ht, _, htail, Nat.succ.inj hl⟩
  · rintro (rfl | ⟨t, ht, walk, hw, rfl⟩)
    · exact ⟨_, .single hp, rfl⟩
    · exact ⟨_, hw.cons hp (edge_of_mem_imports ht), rfl⟩

/-- The plain recursion reaches `n` where a walk of `n` files does. -/
theorem le_depthFrom_iff {n : Nat} {trail : List Path} {p : Path} :
    n ≤ g.depthFrom trail p ↔
      ∃ walk, g.IsChainFrom (ids trail) p.components walk ∧ walk.length = n := by
  by_cases hp : holds trail p = true
  · rw [depthFrom, if_pos hp, Nat.le_zero]
    constructor
    · rintro rfl
      exact ⟨[], .nil _ _, rfl⟩
    · rintro ⟨walk, hw, rfl⟩
      rw [isChainFrom_of_mem (holds_iff.1 hp) hw, List.length_nil]
  · have hp' : p.components ∉ ids trail := fun hm => hp (holds_iff.2 hm)
    cases n with
    | zero => exact ⟨fun _ => ⟨[], .nil _ _, rfl⟩, fun _ => Nat.zero_le _⟩
    | succ n =>
      rw [depthFrom_of_not_holds hp, Nat.add_comm 1, Nat.succ_le_succ_iff, le_foldl_max_iff,
        exists_isChainFrom_succ hp', Nat.le_zero]
      refine or_congr_right (exists_congr fun t => and_congr_right fun ht => ?_)
      exact le_depthFrom_iff
termination_by g.unseen (ids trail)
decreasing_by exact unseen_cons_lt (edge_of_mem_imports ht).source_mem_nodes hp'

/-- Only files outside every cycle are remembered, with their lengths. -/
def Faithful (g : Graph) (known : Lengths) : Prop :=
  ∀ e ∈ known, ¬ TransGen g.Edge e.1.components e.1.components ∧ e.2 = g.depthFrom [] e.1

theorem depthFrom_congr {trail other : List Path} {p q : Path} (hp : p.components = q.components)
    (h : ∀ walk,
      g.IsChainFrom (ids trail) p.components walk ↔ g.IsChainFrom (ids other) p.components walk) :
    g.depthFrom trail p = g.depthFrom other q :=
  eq_of_forall_le_iff fun n => by simp only [le_depthFrom_iff, ← hp, h]

/-- Outside every cycle a length does not depend on the trail: no walk from the file comes back to
it. -/
theorem depthFrom_of_acyclic {trail : List Path} {p : Path}
    (hp : ¬ TransGen g.Edge p.components p.components)
    (ht : ∀ a ∈ ids trail, TransGen g.Edge a p.components) :
      g.depthFrom trail p = g.depthFrom [] p := by
  refine depthFrom_congr rfl fun walk =>
    ⟨fun h => ⟨h.nodup, h.imports, by simp, h.head⟩, fun h => ?_⟩
  refine ⟨h.nodup, h.imports, fun b hb hm => hp ?_, h.head⟩
  cases walk with
  | nil => simp at hb
  | cons a walk =>
    obtain rfl := h.head a rfl
    exact .trans_right (reaches_of_isChain h.imports hb) (ht b hm)

theorem Faithful.get? {known : Lengths} (h : Faithful g known) {p : Path} {n : Nat}
    (hn : known.get? p = some n) :
    ¬ TransGen g.Edge p.components p.components ∧ n = g.depthFrom [] p := by
  obtain ⟨e, he, rfl⟩ := Option.map_eq_some_iff.1 hn
  have hs := Path.same_iff.1 (by simpa using List.find?_some he)
  obtain ⟨hc, hd⟩ := h e (List.mem_of_find?_eq_some he)
  exact ⟨hs ▸ hc, hd.trans (depthFrom_congr hs fun _ => Iff.rfl)⟩

/-- The length of one more file, taken into the longest one so far. -/
def deepen (g : Graph) (cyclic : List Path) (fuel : Nat) (trail : List Path) (found : Nat × Lengths)
    (p : Path) : Nat × Lengths :=
  let (n, known) := chainFrom g cyclic fuel trail p found.2
  (max found.1 n, known)

variable {cyclic : List Path}

theorem chainFrom_succ {fuel : Nat} {trail : List Path} {p : Path} {known : Lengths}
    (hp : ¬ holds trail p = true) (hk : known.get? p = none) (hi : g.imports p ≠ []) :
    chainFrom g cyclic (fuel + 1) trail p known =
      (((g.imports p).foldl (deepen g cyclic fuel (p :: trail)) (0, known)).1 + 1,
        if holds cyclic p then
          ((g.imports p).foldl (deepen g cyclic fuel (p :: trail)) (0, known)).2
        else (p, ((g.imports p).foldl (deepen g cyclic fuel (p :: trail)) (0, known)).1 + 1) ::
          ((g.imports p).foldl (deepen g cyclic fuel (p :: trail)) (0, known)).2) := by
  rw [chainFrom, if_neg hp, hk]
  dsimp only
  split
  · next h => exact absurd h hi
  · rfl

/-- With this much fuel the search answers what the plain recursion does, and remembers only true
lengths. -/
def Agrees (g : Graph) (cyclic : List Path) (fuel : Nat) : Prop :=
  ∀ (trail : List Path) (p : Path) (known : Lengths), Faithful g known →
    g.unseen (ids trail) < fuel →
    (∀ a ∈ ids trail, TransGen g.Edge a p.components) →
    (chainFrom g cyclic fuel trail p known).1 = g.depthFrom trail p ∧
      Faithful g (chainFrom g cyclic fuel trail p known).2

theorem foldl_deepen {fuel : Nat} (ha : Agrees g cyclic fuel) {trail targets : List Path}
    (longest : Nat) {known : Lengths} (hk : Faithful g known) (hf : g.unseen (ids trail) < fuel)
    (ht : ∀ t ∈ targets, ∀ a ∈ ids trail, TransGen g.Edge a t.components) :
    (targets.foldl (deepen g cyclic fuel trail) (longest, known)).1 =
        (targets.map (g.depthFrom trail)).foldl max longest ∧
      Faithful g (targets.foldl (deepen g cyclic fuel trail) (longest, known)).2 := by
  induction targets generalizing longest known with
  | nil => exact ⟨rfl, hk⟩
  | cons t targets ih =>
    obtain ⟨hn, hk'⟩ := ha trail t known hk hf (ht t List.mem_cons_self)
    rw [List.foldl_cons, List.map_cons, List.foldl_cons, ← hn]
    exact ih _ hk' fun q hq => ht q (List.mem_cons_of_mem _ hq)

/-- Remembering lengths changes none of them. -/
theorem agrees (hc : ∀ p, holds cyclic p = true ↔ TransGen g.Edge p.components p.components)
    (fuel : Nat) :
    Agrees g cyclic fuel := by
  induction fuel with
  | zero => exact fun _ _ _ _ hf => absurd hf (Nat.not_lt_zero _)
  | succ fuel ih =>
    intro trail p known hk hf ht
    by_cases hp : holds trail p = true
    · rw [chainFrom, if_pos hp, depthFrom, if_pos hp]
      exact ⟨rfl, hk⟩
    cases hm : known.get? p with
    | some n =>
      rw [chainFrom, if_neg hp, hm]
      -- Only files outside every cycle are remembered, and their lengths hold on every trail.
      obtain ⟨hpc, rfl⟩ := hk.get? hm
      exact ⟨(depthFrom_of_acyclic hpc ht).symm, hk⟩
    | none =>
      by_cases hi : g.imports p = []
      · rw [chainFrom, if_neg hp, hm, hi, depthFrom, if_neg hp, if_pos hi]
        exact ⟨rfl, hk⟩
      have hp' : p.components ∉ ids trail := fun hm => hp (holds_iff.2 hm)
      have hf' : g.unseen (ids (p :: trail)) < fuel :=
        Nat.lt_of_lt_of_le (unseen_cons_lt (mem_nodes_of_imports hi) hp') (Nat.le_of_lt_succ hf)
      have ht' : ∀ t ∈ g.imports p, ∀ a ∈ ids (p :: trail), TransGen g.Edge a t.components := by
        intro t hti a ha
        rcases List.mem_cons.1 ha with rfl | ha
        · exact .single (edge_of_mem_imports hti)
        · exact (ht a ha).tail (edge_of_mem_imports hti)
      obtain ⟨hn, hk'⟩ := foldl_deepen ih 0 hk hf' ht'
      have hd : ((g.imports p).foldl (deepen g cyclic fuel (p :: trail)) (0, known)).1 + 1 =
          g.depthFrom trail p := by
        rw [hn, depthFrom_of_not_holds hp, Nat.add_comm]
      rw [chainFrom_succ hp hm hi, hd]
      refine ⟨rfl, ?_⟩
      split_ifs with hcp
      · exact hk'
      · have hpc : ¬ TransGen g.Edge p.components p.components := fun h => hcp ((hc p).2 h)
        intro e he
        rcases List.mem_cons.1 he with rfl | he
        · exact ⟨hpc, depthFrom_of_acyclic hpc ht⟩
        · exact hk' e he

/-- The files that a breadth-first search finds to lie on cycles are those that reach themselves. -/
theorem holds_cyclic_iff (p : Path) :
    holds (g.files.filter fun q => (g.cycleThrough q).isSome) p = true ↔
      TransGen g.Edge p.components p.components := by
  rw [holds_iff, mem_ids]
  constructor
  · rintro ⟨q, hq, he⟩
    rw [← he]
    exact cycleThrough_isSome_iff.1 (List.mem_filter.1 hq).2
  · intro h
    obtain ⟨b, hb, -⟩ := TransGen.head'_iff.1 h
    obtain ⟨q, hq, he⟩ := mem_ids.1 hb.source_mem
    exact ⟨q, List.mem_filter.2 ⟨hq, cycleThrough_isSome_iff.2 (he ▸ h)⟩, he⟩

/-- The search that remembers lengths answers what the plain recursion from all files does. -/
theorem longestChain_eq_depthFrom (g : Graph) :
    g.longestChain = (g.files.map (g.depthFrom [])).foldl max 0 := by
  have hk : Faithful g [] := fun _ he => absurd he List.not_mem_nil
  have ht : ∀ p ∈ g.files, ∀ a ∈ ids [], TransGen g.Edge a p.components :=
    fun _ _ _ ha => absurd ha List.not_mem_nil
  exact (foldl_deepen (agrees holds_cyclic_iff g.bound) 0 hk (unseen_lt_bound _) ht).1

theorem subset_nodes_of_isChain {walk : List FileId} (h : walk.IsChain g.Edge)
    (hn : ∀ a ∈ walk.head?, a ∈ g.nodes) : walk ⊆ g.nodes := by
  intro b hb
  cases walk with
  | nil => simp at hb
  | cons a walk =>
    rcases ReflTransGen.cases_tail (reaches_of_isChain h hb) with rfl | ⟨c, -, hcb⟩
    · exact hn b rfl
    · exact hcb.target_mem_nodes

/-- A graph that names any file has one with a row. -/
theorem files_ne_nil_of_mem_nodes {a : FileId} (h : a ∈ g.nodes) : g.files ≠ [] := by
  intro hn
  have hr : g.rows = [] := List.map_eq_nil_iff.1 hn
  simp [nodes, hn, hr] at h

/-- A walk from a file without a row is that file alone, and every row makes a chain of one file. -/
theorem length_le_longestChain {walk : List FileId} (hs : walk ⊆ g.nodes) (hn : walk.Nodup)
    (hc : walk.IsChain g.Edge) : walk.length ≤ g.longestChain := by
  rw [longestChain_eq_depthFrom, le_foldl_max_iff]
  cases walk with
  | nil => exact .inl (Nat.zero_le _)
  | cons a walk =>
    right
    by_cases ha : a ∈ ids g.files
    · obtain ⟨p, hp, rfl⟩ := mem_ids.1 ha
      exact ⟨p, hp, le_depthFrom_iff.2 ⟨_, ⟨hn, hc, by simp, by simp⟩, rfl⟩⟩
    · cases walk with
      | cons b walk => exact absurd (List.isChain_cons_cons.1 hc).1.source_mem ha
      | nil =>
        obtain ⟨p, hp⟩ := List.exists_mem_of_ne_nil _
          (files_ne_nil_of_mem_nodes (hs List.mem_cons_self))
        exact ⟨p, hp, le_depthFrom_iff.2 ⟨[p.components], .single (by simp), rfl⟩⟩

theorem exists_walk_longestChain (g : Graph) :
    ∃ walk : List FileId,
      walk ⊆ g.nodes ∧ walk.Nodup ∧ walk.IsChain g.Edge ∧ walk.length = g.longestChain := by
  have hle := le_of_eq (longestChain_eq_depthFrom g)
  rw [le_foldl_max_iff, Nat.le_zero] at hle
  rcases hle with h0 | ⟨p, hp, hle⟩
  · exact ⟨[], List.nil_subset _, List.nodup_nil, .nil, h0.symm⟩
  · obtain ⟨walk, hw, hl⟩ := le_depthFrom_iff.1 hle
    refine ⟨walk, subset_nodes_of_isChain hw.imports fun a ha => ?_, hw.nodup, hw.imports, hl⟩
    exact hw.head a ha ▸ List.mem_append_left _ (mem_ids_of_mem hp)

/-- The longest chain counts the files of a longest walk that meets no file twice, it is 0 for the
graph without files, and it is what the recursion that remembers nothing answers. -/
theorem longestChain_isGreatest (g : Graph) :
    IsGreatest {n | ∃ walk : List FileId, walk ⊆ g.nodes ∧ walk.Nodup ∧ walk.IsChain g.Edge ∧
      walk.length = n}
        g.longestChain ∧
      empty.longestChain = 0 ∧
      g.longestChain = (g.files.map (g.depthFrom [])).foldl max 0 := by
  refine ⟨⟨exists_walk_longestChain g, ?_⟩, rfl, longestChain_eq_depthFrom g⟩
  rintro n ⟨walk, hs, hn, hc, rfl⟩
  exact length_le_longestChain hs hn hc

end QualityGate.Graph
