import QualityGate.Proofs.Graph.Parents

/-!
The breadth-first search through one file. Its queue holds the files at one distance from the start,
and then files at the next one. So the first file met that imports the start is a nearest one, and
the cycle that is read off the parents is a shortest one; and as long as no file is met that does,
no file that was followed imports the start.
-/
namespace QualityGate.Graph

open Relation

variable {g : Graph} {s : FileId} {links : List (FileId × FileId)} {a b p t : FileId} {n : ℕ}

/-- Some walk of so many imports leads from `s` to the file. -/
inductive ReachedIn (g : Graph) (s : FileId) : ℕ → FileId → Prop
  | here : ReachedIn g s 0 s
  | next {n : ℕ} {a b : FileId} (h : ReachedIn g s n a) (edge : g.Edge a b) :
    ReachedIn g s (n + 1) b

theorem reachedIn_of_isChain {inner : List FileId} (h : (s :: inner ++ [b]).IsChain g.Edge) :
    ReachedIn g s (inner.length + 1) b := by
  induction inner using List.reverseRecOn generalizing b with
  | nil => exact .next .here (by simpa using h)
  | append_singleton inner a ih =>
    have hsplit : (s :: inner ++ [a]) ++ [b] = s :: (inner ++ [a]) ++ [b] := by simp
    rw [← hsplit, List.isChain_append, List.getLast?_concat] at h
    rw [List.length_append, List.length_singleton]
    exact .next (ih h.1) (h.2.2 a rfl b rfl)

/-- The imports of a followed file were all reached, and none is the start. -/
def Followed (g : Graph) (s : FileId) (links : List (FileId × FileId)) (a : FileId) : Prop :=
  ∀ b, g.Edge a b → b ≠ s ∧ b ∈ keys links

theorem Followed.mono {more : List (FileId × FileId)} (h : Followed g s links a)
    (hk : keys links ⊆ keys more) : Followed g s more a :=
  fun b hb => (h b hb).imp_right (@hk b)

/-- The files in the queue: those `near` are `n` imports away from the start, those `far` one
more. -/
structure Frontier (g : Graph) (s : FileId) (n : ℕ) (near far : List FileId)
    (links : List (FileId × FileId)) : Prop where
  rooted : Rooted g s links
  nearby : ∀ a ∈ near, a ∈ s :: keys links ∧ (way links a).length = n
  beyond : ∀ a ∈ far, a ∈ s :: keys links ∧ (way links a).length = n + 1
  waiting : ∀ a ∈ s :: keys links, a ∈ near ∨ a ∈ far ∨ Followed g s links a
  /-- No file at this distance was missed. -/
  layer : ∀ a, ReachedIn g s n a → a ∈ near ∨ Followed g s links a
  inner : ∀ m < n, ∀ a, ReachedIn g s m a → Followed g s links a

namespace Frontier

variable {near far : List FileId}

/-- At first only the start itself waits. -/
theorem initial : Frontier g s 0 [s] [] [] where
  rooted := .nil
  nearby a ha := ⟨by simpa using ha, rfl⟩
  beyond _ ha := absurd ha List.not_mem_nil
  waiting a ha := .inl (by simpa using ha)
  layer a ha := by
    cases ha
    exact .inl List.mem_cons_self
  inner m hm := absurd hm (Nat.not_lt_zero m)

/-- A new import of a file that is followed comes to the far end of the queue. -/
theorem add (h : Frontier g s n (p :: near) far links) (edge : g.Edge p t) (hs : t ≠ s)
    (fresh : t ∉ keys links) : Frontier g s n (p :: near) (far ++ [t]) ((t, p) :: links) := by
  have hold {a : FileId} (ha : a ∈ s :: keys links) :
      a ∈ s :: keys ((t, p) :: links) ∧ way ((t, p) :: links) a = way links a := by
    have hat : a ≠ t := by
      rintro rfl
      exact (List.mem_cons.1 ha).elim hs fresh
    exact ⟨List.cons_subset_cons s (List.subset_cons_self t _) ha, way_cons_of_ne hat⟩
  have hmono {a : FileId} (hf : Followed g s links a) : Followed g s ((t, p) :: links) a :=
    hf.mono (List.subset_cons_self t _)
  obtain ⟨hp, hlength⟩ := h.nearby p List.mem_cons_self
  refine ⟨.cons h.rooted hs fresh hp edge,
    fun a ha => ?near, fun a ha => ?far, fun a ha => ?waiting, fun a ha =>
      (h.layer a ha).imp_right hmono, fun m hm a ha => hmono (h.inner m hm a ha)⟩
  case near =>
    obtain ⟨hmem, hl⟩ := h.nearby a ha
    exact ⟨(hold hmem).1, (hold hmem).2 ▸ hl⟩
  case far =>
    rcases List.mem_append.1 ha with ha | ha
    · obtain ⟨hmem, hl⟩ := h.beyond a ha
      exact ⟨(hold hmem).1, (hold hmem).2 ▸ hl⟩
    · obtain rfl := List.mem_singleton.1 ha
      exact ⟨by simp, by rw [way_cons_self, List.length_append, hlength, List.length_singleton]⟩
  case waiting =>
    by_cases hat : a = t
    · exact .inr (.inl (by simp [hat]))
    · rcases h.waiting a (by simpa [hat] using ha) with hw | hw | hw
      · exact .inl hw
      · exact .inr (.inl (List.mem_append_left _ hw))
      · exact .inr (.inr (hmono hw))

/-- A file that was followed leaves the queue. -/
theorem pop (h : Frontier g s n (p :: near) far links) (hp : Followed g s links p) :
    Frontier g s n near far links where
  rooted := h.rooted
  nearby a ha := h.nearby a (List.mem_cons_of_mem p ha)
  beyond := h.beyond
  waiting a ha := by
    rcases h.waiting a ha with hw | hw | hw
    · rcases List.mem_cons.1 hw with rfl | hw
      · exact .inr (.inr hp)
      · exact .inl hw
    · exact .inr (.inl hw)
    · exact .inr (.inr hw)
  layer a ha := by
    rcases h.layer a ha with hw | hw
    · rcases List.mem_cons.1 hw with rfl | hw
      · exact .inr hp
      · exact .inl hw
    · exact .inr hw
  inner := h.inner

/-- When all files at one distance were followed, those at the next one are in the queue. -/
theorem advance (h : Frontier g s n [] far links) : Frontier g s (n + 1) far [] links where
  rooted := h.rooted
  nearby := h.beyond
  beyond _ ha := absurd ha List.not_mem_nil
  waiting a ha := by
    rcases h.waiting a ha with hw | hw | hw
    · exact absurd hw List.not_mem_nil
    · exact .inl hw
    · exact .inr (.inr hw)
  layer b hb := by
    obtain - | ⟨ha, edge⟩ := hb
    have hfollowed := (h.layer _ ha).resolve_left List.not_mem_nil
    rcases h.waiting b (List.mem_cons_of_mem s (hfollowed b edge).2) with hw | hw | hw
    · exact absurd hw List.not_mem_nil
    · exact .inl hw
    · exact .inr hw
  inner m hm a ha := by
    rcases Nat.lt_succ_iff_lt_or_eq.1 hm with hm | rfl
    · exact h.inner m hm a ha
    · exact (h.layer a ha).resolve_left List.not_mem_nil

/-- With an empty queue the search has gone everywhere and not come back. -/
theorem not_transGen (h : Frontier g s n near far links) (hq : near ++ far = []) :
    ¬ TransGen g.Edge s s := by
  obtain ⟨rfl, rfl⟩ := List.append_eq_nil_iff.1 hq
  have hfollowed {a : FileId} (ha : a ∈ s :: keys links) : Followed g s links a := by
    rcases h.waiting a ha with hw | hw | hw
    · exact absurd hw List.not_mem_nil
    · exact absurd hw List.not_mem_nil
    · exact hw
  have hall {b : FileId} (hb : TransGen g.Edge s b) : b ≠ s ∧ b ∈ keys links := by
    induction hb with
    | single edge => exact hfollowed List.mem_cons_self _ edge
    | tail _ edge ih => exact hfollowed (List.mem_cons_of_mem s ih.2) _ edge
  exact fun hs => (hall hs).1 rfl

/-- No closed walk is shorter than the way to a file in front of the queue. -/
theorem length_way_le (h : Frontier g s n (p :: near) far links) {other : List FileId}
    (hother : (s :: other ++ [s]).IsChain g.Edge) : (way links p).length ≤ other.length := by
  rw [(h.nearby p List.mem_cons_self).2]
  by_contra hlt
  obtain - | ⟨ha, edge⟩ := reachedIn_of_isChain hother
  exact (h.inner _ (Nat.lt_of_not_le hlt) _ ha s edge).1 rfl

/-- The queue begins with files at the least distance. -/
theorem exists_cons {rest : List FileId} (h : Frontier g s n near far links)
    (hq : a :: rest = near ++ far) :
    ∃ m ≥ n, ∃ near far, rest = near ++ far ∧ Frontier g s m (a :: near) far links := by
  cases near with
  | nil =>
    obtain rfl : a :: rest = far := hq
    exact ⟨n + 1, Nat.le_succ n, rest, [], (List.append_nil rest).symm, h.advance⟩
  | cons b near =>
    obtain ⟨rfl, rfl⟩ := List.cons.inj hq
    exact ⟨n, Nat.le_refl n, near, far, rfl, h⟩

end Frontier

namespace Reached

variable {r : Reached} {start p t : Path} {near : List FileId}

/-- Not more than this many files are still to be followed. -/
def work (g : Graph) (r : Reached) : ℕ := r.queue.length + g.unseen (keys r.links)

/-- The search has taken `p` from the queue and follows its imports. -/
def Following (g : Graph) (start : Path) (n : ℕ) (near : List FileId) (p : Path)
    (r : Reached) : Prop :=
  ∃ far, ids r.queue = near ++ far ∧
    Frontier g start.components n (p.components :: near) far r.links

theorem add_of_mem (h : t.components ∈ keys r.links) : r.add p t = r := if_pos (isSome_parent?.2 h)

theorem add_of_not_mem (h : t.components ∉ keys r.links) :
    r.add p t = ⟨(t, p) :: r.parents, r.queue ++ [t]⟩ := if_neg (mt isSome_parent?.1 h)

theorem keys_subset_add : keys r.links ⊆ keys (r.add p t).links := by
  by_cases h : t.components ∈ keys r.links
  · rw [add_of_mem h]
    exact List.Subset.refl _
  · rw [add_of_not_mem h]
    exact List.subset_cons_self _ _

theorem mem_keys_add : t.components ∈ keys (r.add p t).links := by
  by_cases h : t.components ∈ keys r.links
  · exact keys_subset_add h
  · rw [add_of_not_mem h]
    exact List.mem_cons_self

theorem Following.add (h : Following g start n near p r) (edge : g.Edge p.components t.components)
    (hs : t.components ≠ start.components) : Following g start n near p (r.add p t) := by
  by_cases ht : t.components ∈ keys r.links
  · rwa [add_of_mem ht]
  · obtain ⟨far, hq, hf⟩ := h
    rw [add_of_not_mem ht]
    refine ⟨far ++ [t.components], ?_, hf.add edge hs ht⟩
    rw [ids_append, hq, List.append_assoc, ids_cons, ids_nil]

/-- What the queue gains was not seen before. -/
theorem work_add_le (edge : g.Edge p.components t.components) : (r.add p t).work g ≤ r.work g := by
  by_cases ht : t.components ∈ keys r.links
  · rw [add_of_mem ht]
  · have hlt : g.unseen (keys (r.add p t).links) < g.unseen (keys r.links) := by
      rw [add_of_not_mem ht]
      exact unseen_cons_lt edge.target_mem_nodes ht
    have hqueue : (r.add p t).queue.length = r.queue.length + 1 := by
      rw [add_of_not_mem ht, List.length_append, List.length_singleton]
    unfold work
    omega

section Expand

variable {targets : List Path}

/-- What each import keeps that is not the start, all of them keep. -/
theorem expand_keeps {P : Reached → Prop}
    (hadd : ∀ t ∈ targets, t.components ≠ start.components → ∀ r, P r → P (r.add p t)) (h : P r) :
    P (expand start p targets r).2 := by
  induction targets generalizing r with
  | nil => exact h
  | cons t targets ih =>
    obtain ⟨hhere, hlater⟩ := List.forall_mem_cons.1 hadd
    unfold expand
    split_ifs with hs
    · exact h
    · exact ih hlater (hhere (fun he => hs (Path.same_iff.2 he)) r h)

theorem keys_subset_expand : keys r.links ⊆ keys (expand start p targets r).2.links :=
  expand_keeps (P := fun more => keys r.links ⊆ keys more.links)
    (fun _ _ _ _ h => List.Subset.trans h keys_subset_add) (List.Subset.refl _)

theorem exists_of_expand (hmet : (expand start p targets r).1 = true) :
    ∃ t ∈ targets, t.components = start.components := by
  induction targets generalizing r with
  | nil => exact absurd hmet Bool.false_ne_true
  | cons t targets ih =>
    unfold expand at hmet
    split_ifs at hmet with hs
    · exact ⟨t, List.mem_cons_self, Path.same_iff.1 hs⟩
    · obtain ⟨u, hu, he⟩ := ih hmet
      exact ⟨u, List.mem_cons_of_mem t hu, he⟩

/-- A search that did not come back has reached all imports. -/
theorem forall_of_expand (hmet : (expand start p targets r).1 = false) : ∀ t ∈ targets,
    t.components ≠ start.components ∧ t.components ∈ keys (expand start p targets r).2.links := by
  induction targets generalizing r with
  | nil => exact List.forall_mem_nil _
  | cons t targets ih =>
    unfold expand at hmet ⊢
    split_ifs at hmet ⊢ with hs
    exact List.forall_mem_cons.2
      ⟨⟨fun he => hs (Path.same_iff.2 he), keys_subset_expand mem_keys_add⟩, ih hmet⟩

end Expand

variable (r start p) in
theorem work_imports_le : (expand start p (g.imports p) r).2.work g ≤ r.work g :=
  expand_keeps (P := fun more => more.work g ≤ r.work g)
    (fun _ ht _ _ h => (work_add_le (edge_of_mem_imports ht)).trans h) (Nat.le_refl _)

theorem Following.imports (h : Following g start n near p r) :
    Following g start n near p (expand start p (g.imports p) r).2 :=
  expand_keeps (fun _ ht hs _ h => h.add (edge_of_mem_imports ht) hs) h

/-- A file that was followed without coming back leaves the queue. -/
theorem Following.leave (h : Following g start n near p r)
    (hmet : (Reached.expand start p (g.imports p) r).1 = false) :
    ∃ far, ids (Reached.expand start p (g.imports p) r).2.queue = near ++ far ∧
      Frontier g start.components n near far (Reached.expand start p (g.imports p) r).2.links := by
  obtain ⟨far, hq, hf⟩ := h.imports
  refine ⟨far, hq, hf.pop fun b hb => ?_⟩
  obtain ⟨t, ht, rfl⟩ := edge_components.1 hb
  exact forall_of_expand hmet t ht

theorem edge_of_expand (hmet : (Reached.expand start p (g.imports p) r).1 = true) :
    g.Edge p.components start.components :=
  edge_components.2 (exists_of_expand hmet)

end Reached

open Reached

variable {start p : Path} {r : Reached} {near far : List FileId}

/-- How a search that has come `n` imports far may end: it has gone everywhere, or it is at a file
that imports the start, and no nearer file does. -/
def Ends (g : Graph) (start : Path) (n : ℕ) : Option (Reached × Path) → Prop
  | none => ¬ TransGen g.Edge start.components start.components
  | some (r, last) => g.Edge last.components start.components ∧
    ∃ m ≥ n, ∃ near, Following g start m near last r

theorem Ends.mono {m : ℕ} (hm : n ≤ m) : {found : Option (Reached × Path)} → Ends g start m found →
    Ends g start n found
  | none, h => h
  | some _, ⟨edge, k, hk, h⟩ => ⟨edge, k, hm.trans hk, h⟩

theorem searchBack_ends {fuel : ℕ} (hf : r.work g ≤ fuel) (hq : ids r.queue = near ++ far)
    (h : Frontier g start.components n near far r.links) :
    Ends g start n (searchBack g start fuel r) := by
  induction fuel generalizing n near far r with
  | zero =>
    have hnone : r.queue = [] :=
      List.length_eq_zero_iff.1 (Nat.eq_zero_of_add_eq_zero_right (Nat.le_zero.1 hf))
    exact h.not_transGen (hq.symm.trans (by rw [hnone, ids_nil]))
  | succ fuel ih =>
    obtain ⟨parents, queue⟩ := r
    cases queue with
    | nil => exact h.not_transGen hq.symm
    | cons p queue =>
      obtain ⟨m, hm, near, far, hqueue, h⟩ := h.exists_cons hq
      have hfollowing : Following g start m near p ⟨parents, queue⟩ := ⟨far, hqueue, h⟩
      have hwork : (Reached.mk parents queue).work g ≤ fuel := by
        change queue.length + 1 + g.unseen (keys (Reached.mk parents queue).links) ≤ fuel + 1 at hf
        change queue.length + g.unseen (keys (Reached.mk parents queue).links) ≤ fuel
        omega
      simp only [searchBack]
      cases hexpand : Reached.expand start p (g.imports p) ⟨parents, queue⟩ with
      | mk met r =>
        cases met with
        | true => exact ⟨edge_of_expand (r := ⟨parents, queue⟩) (by rw [hexpand]), m, hm, near,
            by simpa only [hexpand] using hfollowing.imports⟩
        | false =>
          obtain ⟨far, hqueue, h⟩ := hfollowing.leave (by rw [hexpand])
          have hless := work_imports_le (g := g) ⟨parents, queue⟩ start p
          rw [hexpand] at hqueue h hless
          exact (ih (hless.trans hwork) hqueue h).mono hm

/-- At first the start itself is followed. -/
theorem Reached.Following.initial : Following g start 0 [] start .nothing := ⟨[], rfl, .initial⟩

theorem work_nothing_lt_bound : Reached.nothing.work g < g.bound := by
  rw [work, nothing, List.length_nil, Nat.zero_add]
  exact unseen_lt_bound _

/-- The search from a file that does not import itself. -/
theorem searchBack_ends_of_expand {r : Reached}
    (h : Reached.expand start start (g.imports start) .nothing = (false, r)) :
    Ends g start 1 (searchBack g start g.bound r) := by
  obtain ⟨far, hqueue, hfrontier⟩ := (Following.initial (g := g)).leave (by rw [h])
  have hless := work_imports_le (g := g) .nothing start start
  rw [h] at hqueue hfrontier hless
  exact searchBack_ends (hless.trans work_nothing_lt_bound.le) (by simpa using hqueue)
    hfrontier.advance

/-- The loop over the parents, from the file that the search ends at, comes to a file that the start
led to. -/
theorem exists_wayTo?_of_ends {last : Path} (h : Ends g start 1 (some (r, last))) :
    ∃ first rest, r.wayTo? start r.parents.length last [] = some (first :: rest) ∧
      (∃ q, r.parent? first = some q ∧ q.components = start.components) ∧
      ids (first :: rest) = way r.links last.components := by
  obtain ⟨-, m, hm, near, far, -, hfrontier⟩ := h
  have hlast : last.components ∈ keys r.links := by
    by_contra hn
    have hlength := (hfrontier.nearby _ List.mem_cons_self).2
    rw [way_eq_nil hn, List.length_nil] at hlength
    omega
  have hfuel : (way r.links last.components).length ≤ r.parents.length := by
    simpa [links] using @length_way_le r.links last.components
  obtain ⟨first, rest, hway, hparent, hids⟩ :=
    @exists_wayTo? _ _ _ _ hfrontier.rooted _ [] hlast hfuel
  exact ⟨first, rest, hway, hparent, hids.trans (List.append_nil _)⟩

/-- The search through a file of the graph finds nothing if no walk leads back to it, and otherwise
what a search that comes back has noted. -/
theorem cycleThrough_cases (hp : g.file? p = some start) :
    (g.cycleThrough p = none ∧ ¬ TransGen g.Edge start.components start.components) ∨
    ∃ cycle r last, g.cycleThrough p = some cycle ∧
      ids cycle = start.components :: way r.links last.components ++ [start.components] ∧
      Ends g start 0 (some (r, last)) := by
  simp only [cycleThrough, hp, Option.bind_eq_bind, Option.bind_some]
  cases hexpand : Reached.expand start start (g.imports start) .nothing with
  | mk met r =>
    cases met with
    | true =>
      have hfollowing := (@Following.initial g start).imports
      rw [hexpand] at hfollowing
      obtain ⟨far, -, hfrontier⟩ := id hfollowing
      exact .inr ⟨[start, start], r, start, rfl, by simp [hfrontier.rooted.way_start],
        edge_of_expand (r := .nothing) (by rw [hexpand]), 0, Nat.le_refl 0, [], hfollowing⟩
    | false =>
      have hends := searchBack_ends_of_expand hexpand
      simp only [comeBack?, Option.bind_eq_bind]
      cases hback : searchBack g start g.bound r with
      | none =>
        rw [hback] at hends
        exact .inl ⟨rfl, hends⟩
      | some found =>
        obtain ⟨r, last⟩ := found
        rw [hback] at hends
        obtain ⟨first, rest, hway, -, hids⟩ := exists_wayTo?_of_ends hends
        refine .inr ⟨start :: first :: rest ++ [start], r, last, ?_, ?_, hends.mono (Nat.zero_le 1)⟩
        · simp [hway]
        · rw [ids_append, ids_cons, hids, ids_cons, ids_nil]

/-- The search through a file that reaches itself comes back, and otherwise it finds nothing. -/
theorem cycleThrough_isSome_iff : (g.cycleThrough p).isSome ↔
    TransGen g.Edge p.components p.components := by
  cases hp : g.file? p with
  | none =>
    refine ⟨by simp [cycleThrough, hp], fun h => ?_⟩
    obtain ⟨b, hb, -⟩ := TransGen.head'_iff.1 h
    simpa [hp] using isSome_file?.2 hb.source_mem
  | some start =>
    rw [← components_of_file? hp]
    rcases cycleThrough_cases hp with ⟨hnone, hn⟩ | ⟨cycle, r, last, hcycle, -, edge, m, -,
      near, far, -, h⟩
    · simpa [hnone] using hn
    · have hchain := h.rooted.isChain_way (h.nearby _ List.mem_cons_self).1 edge
      simpa [hcycle] using transGen_of_isChain hchain

/-- A cycle through a file is a walk of imports from the file back to it. It takes no other file
twice, and there is no shorter one. -/
theorem cycleThrough_spec {cycle : List Path} (h : g.cycleThrough p = some cycle) :
    ∃ inner, ids cycle = p.components :: inner ++ [p.components] ∧ (ids cycle).IsChain g.Edge ∧
      inner.Nodup ∧ p.components ∉ inner ∧
      ∀ other, (p.components :: other ++ [p.components]).IsChain g.Edge →
        inner.length ≤ other.length := by
  cases hp : g.file? p with
  | none => simp [cycleThrough, hp] at h
  | some start =>
    rw [← components_of_file? hp]
    rcases cycleThrough_cases hp with ⟨hnone, -⟩ | ⟨found, r, last, hfound, hids, edge, m, -,
      near, far, -, hf⟩
    · rw [hnone] at h
      cases h
    · obtain rfl : found = cycle := Option.some.inj (hfound.symm.trans h)
      refine ⟨way r.links last.components, hids, ?_, hf.rooted.nodup_way,
        fun hs => hf.rooted.start_not_mem (way_subset hs), fun other => hf.length_way_le⟩
      rw [hids]
      exact hf.rooted.isChain_way (hf.nearby _ List.mem_cons_self).1 edge

theorem cycleThrough_walk {cycle : List Path} (h : g.cycleThrough p = some cycle) :
    ∃ inner, ids cycle = p.components :: inner ++ [p.components] ∧ (ids cycle).IsChain g.Edge := by
  obtain ⟨inner, hids, hchain, -⟩ := cycleThrough_spec h
  exact ⟨inner, hids, hchain⟩

/-- A file of the graph that reaches itself has a shortest cycle, in which no other file comes
twice; and the parents of the search that finds it lead back to the file. -/
theorem cycleThrough_shortest (g : Graph) (p : Path) :
    ((g.cycleThrough p).isSome ↔
      p.components ∈ ids g.files ∧ TransGen g.Edge p.components p.components) ∧
    (∀ cycle, g.cycleThrough p = some cycle → ∃ inner,
      ids cycle = p.components :: inner ++ [p.components] ∧ (ids cycle).IsChain g.Edge ∧
      inner.Nodup ∧ p.components ∉ inner ∧
      ∀ other, (p.components :: other ++ [p.components]).IsChain g.Edge →
        inner.length ≤ other.length) ∧
    ∀ start first r last,
      Reached.expand start start (g.imports start) .nothing = (false, first) →
      searchBack g start g.bound first = some (r, last) →
      ∃ nearest later, r.wayTo? start r.parents.length last [] = some (nearest :: later) ∧
        ∃ q, r.parent? nearest = some q ∧ q.components = start.components := by
  refine ⟨?some, fun cycle => cycleThrough_spec, fun start first r last hexpand hback => ?way⟩
  case some =>
    rw [cycleThrough_isSome_iff, iff_and_self]
    intro h
    obtain ⟨b, edge, -⟩ := TransGen.head'_iff.1 h
    exact edge.source_mem
  case way =>
    have hends := searchBack_ends_of_expand hexpand
    rw [hback] at hends
    obtain ⟨nearest, later, hway, hparent, -⟩ := exists_wayTo?_of_ends hends
    exact ⟨nearest, later, hway, hparent⟩

/-- The cycle `a, b, c` with an import of `a` by `b`, which is no use to `c`. -/
def chord : Graph :=
  (((Graph.empty.addEdge ⟨"a"⟩ ⟨"b"⟩).addEdge ⟨"b"⟩ ⟨"a"⟩).addEdge ⟨"b"⟩ ⟨"c"⟩).addEdge ⟨"c"⟩ ⟨"a"⟩

theorem cycleThrough_shortest_chord :
    (∀ other, (Path.components ⟨"c"⟩ :: other ++ [Path.components ⟨"c"⟩]).IsChain chord.Edge →
      2 ≤ other.length) ∧
    ∃ nearest later, (Reached.mk [(⟨"b"⟩, ⟨"a"⟩), (⟨"a"⟩, ⟨"c"⟩)] []).wayTo? ⟨"c"⟩ 2 ⟨"b"⟩ [] =
      some (nearest :: later) := by
  obtain ⟨-, hcycle, hway⟩ := cycleThrough_shortest chord ⟨"c"⟩
  obtain ⟨inner, hids, -, -, -, hshort⟩ := hcycle [⟨"c"⟩, ⟨"a"⟩, ⟨"b"⟩, ⟨"c"⟩] (by decide)
  have hlength : inner.length = 2 := by simpa using (congrArg List.length hids).symm
  obtain ⟨nearest, later, hfound, -⟩ := hway ⟨"c"⟩ ⟨[(⟨"a"⟩, ⟨"c"⟩)], [⟨"a"⟩]⟩
    ⟨[(⟨"b"⟩, ⟨"a"⟩), (⟨"a"⟩, ⟨"c"⟩)], []⟩ ⟨"b"⟩ (by decide) (by decide)
  exact ⟨hlength ▸ hshort, nearest, later, hfound⟩

end QualityGate.Graph
