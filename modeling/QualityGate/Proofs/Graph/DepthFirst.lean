import QualityGate.Proofs.Graph.Ring
import QualityGate.Proofs.Graph.Walk

/-!
The depth-first search that lists cycles. While it runs, the files on its trail are open, and all
others that it has visited are settled: from them no walk goes on for ever without the last import
of a listed cycle. In the end every file is settled, so every walk that comes back takes such an
import.
-/
namespace QualityGate.Graph

open Relation

/-- `[a₀, a₁, …, aₙ, a₀]` where `a₀, …, aₙ` are distinct files and each imports the next one. -/
def IsCycle (g : Graph) (cycle : List Path) : Prop :=
  ∃ a rest, ids cycle = a :: rest ++ [a] ∧ (a :: rest).Nodup ∧ (ids cycle).IsChain g.Edge

def ClosedBy (cycles : List (List Path)) (a b : FileId) : Prop :=
  ∃ cycle ∈ cycles, [a, b] <:+ ids cycle

/-- An import that closes none of the listed cycles. -/
def OpenEdge (g : Graph) (cycles : List (List Path)) (a b : FileId) : Prop :=
  g.Edge a b ∧ ¬ ClosedBy cycles a b

/-- No walk of open edges from the file goes on for ever. -/
def Settled (g : Graph) (cycles : List (List Path)) : FileId → Prop :=
  Acc fun b a => g.OpenEdge cycles a b

variable {g : Graph} {cycles more : List (List Path)}

theorem ClosedBy.mono (h : cycles ⊆ more) {a b : FileId} :
    ClosedBy cycles a b → ClosedBy more a b :=
  fun ⟨cycle, hc, hs⟩ => ⟨cycle, h hc, hs⟩

theorem Settled.mono (h : cycles ⊆ more) {a : FileId} (ha : Settled g cycles a) :
    Settled g more a :=
  Subrelation.accessible (fun ⟨he, hc⟩ => ⟨he, fun hm => hc (hm.mono h)⟩) ha

theorem Settled.of_edges {a : FileId}
    (h : ∀ b, g.Edge a b → ClosedBy cycles a b ∨ Settled g cycles b) : Settled g cycles a :=
  .intro a fun b ⟨he, hc⟩ => (h b he).resolve_left hc

theorem not_rel_of_acc {α : Type*} {r : α → α → Prop} {a : α} (h : Acc r a) : ¬ r a a := by
  induction h with
  | intro a _ ih => exact fun hr => ih a hr hr

theorem Settled.not_transGen {a : FileId} (h : Settled g cycles a) :
    ¬ TransGen (g.OpenEdge cycles) a a := by
  rw [← transGen_swap]
  exact not_rel_of_acc (Acc.transGen h)

/-- What holds of a search whose trail is `trail`, the latest file first. -/
structure Search.Sound (g : Graph) (trail : List FileId) (s : Search) : Prop where
  isCycle : ∀ cycle ∈ s.cycles, g.IsCycle cycle
  rings : s.rings.map ids =
    (s.cycles.map fun cycle => ids (Search.canonical cycle.dropLast)).reverse
  distinct : (s.rings.map ids).Nodup
  visited : ∀ cycle ∈ s.cycles, ids cycle ⊆ ids s.visited
  trail_visited : trail ⊆ ids s.visited
  nodup : trail.Nodup
  chain : trail.IsChain fun b a => g.Edge a b
  /-- A cycle whose last file is still open lies on the trail. -/
  opened : ∀ cycle ∈ s.cycles, ∀ a back, (ids cycle).dropLast.reverse = a :: back → a ∈ trail →
    a :: back <:+: trail
  settled : ∀ a ∈ ids s.visited, a ∈ trail ∨ Settled g s.cycles a

/-- A search that goes on forgets nothing. -/
def Search.Grows (s t : Search) : Prop := ids s.visited ⊆ ids t.visited ∧ s.cycles ⊆ t.cycles

namespace Search

variable {s t u : Search} {trail : List FileId}

theorem Grows.refl : s.Grows s := ⟨fun _ h => h, fun _ h => h⟩

theorem Grows.trans (h : s.Grows t) (k : t.Grows u) : s.Grows u :=
  ⟨List.Subset.trans h.1 k.1, List.Subset.trans h.2 k.2⟩

theorem sound_start : Sound g [] start where
  isCycle _ h := by simp [start] at h
  rings := rfl
  distinct := List.nodup_nil
  visited _ h := by simp [start] at h
  trail_visited := List.nil_subset _
  nodup := List.nodup_nil
  chain := .nil
  opened _ h := by simp [start] at h
  settled _ h := by simp [start] at h

theorem grows_visit (s : Search) (p : Path) : s.Grows (s.visit p) :=
  ⟨List.subset_cons_self _ _, fun _ h => h⟩

/-- Opening a new file that the last one on the trail imports. -/
theorem Sound.visit (h : Sound g trail s) {p : Path} (hp : p.components ∉ ids s.visited)
    (he : ∀ a ∈ trail.head?, g.Edge a p.components) :
      Sound g (p.components :: trail) (s.visit p) where
  isCycle := h.isCycle
  rings := h.rings
  distinct := h.distinct
  visited cycle hc := List.subset_cons_of_subset _ (h.visited cycle hc)
  trail_visited := List.cons_subset_cons _ h.trail_visited
  nodup := List.nodup_cons.2 ⟨fun hm => hp (h.trail_visited hm), h.nodup⟩
  chain := List.isChain_cons.2 ⟨he, h.chain⟩
  opened cycle hc a back hr ha := by
    rcases List.mem_cons.1 ha with rfl | ha
    · have hm : p.components ∈ (ids cycle).dropLast.reverse := hr ▸ List.mem_cons_self
      exact absurd (h.visited cycle hc (List.mem_of_mem_dropLast (List.mem_reverse.1 hm))) hp
    · exact (h.opened cycle hc a back hr ha).trans (List.suffix_cons _ _).isInfix
  settled a ha := by
    rcases List.mem_cons.1 ha with rfl | ha
    · exact .inl List.mem_cons_self
    · exact (h.settled a ha).imp_left (List.mem_cons_of_mem _)

/-- Leaving the last file of the trail once it is settled. -/
theorem Sound.leave {p : FileId} (h : Sound g (p :: trail) s) (hp : Settled g s.cycles p) :
    Sound g trail s where
  isCycle := h.isCycle
  rings := h.rings
  distinct := h.distinct
  visited := h.visited
  trail_visited := (List.cons_subset.1 h.trail_visited).2
  nodup := (List.nodup_cons.1 h.nodup).2
  chain := List.isChain_of_isChain_cons h.chain
  opened cycle hc a back hr ha := by
    rcases List.infix_cons_iff.1 (h.opened cycle hc a back hr (List.mem_cons_of_mem _ ha))
      with hi | hi
    · have hap : a = p := (List.cons_prefix_cons.1 hi).1
      exact absurd (hap ▸ ha) (List.nodup_cons.1 h.nodup).1
    · exact hi
  settled a ha := by
    rcases h.settled a ha with hm | hs
    · rcases List.mem_cons.1 hm with rfl | hm
      · exact .inr hp
      · exact .inl hm
    · exact .inr hs

/-- A list without repetitions has only one stretch of the same members as a given beginning. -/
theorem infix_eq_prefix {α : Type*} {x y l : List α} (hl : l.Nodup) (hx : x <:+: l) (hy : y <+: l)
    (hp : x.Perm y) : x = y := by
  obtain ⟨before, after, rfl⟩ := hx
  cases before with
  | nil =>
    obtain ⟨rest, hr⟩ := hy
    rw [List.nil_append] at hr
    exact (List.append_inj_left hr hp.length_eq.symm).symm
  | cons b before =>
    cases y with
    | nil => exact hp.eq_nil
    | cons c y =>
      have hbc : c = b := (List.cons_prefix_cons.1 hy).1
      have hm : b ∈ x := hp.mem_iff.2 (hbc ▸ List.mem_cons_self)
      simp only [List.cons_append, List.nodup_cons, List.mem_append, not_or] at hl
      exact absurd hm hl.1.1.2

/-- The part of a trail from an open file on, read from that file to the last one. -/
theorem ring_of_trail {p : Path} {rest : List Path} {target : Path}
    (ht : target.components ∈ ids (p :: rest)) :
    ∃ (inner back : List FileId),
      ids ((p :: rest).reverse.dropWhile fun q => !q.same target) = target.components :: inner ∧
      (target.components :: inner).reverse = p.components :: back ∧
      p.components :: back <+: ids (p :: rest) := by
  have ht' : target.components ∈ ids (p :: rest).reverse := by
    rw [ids_reverse]
    exact List.mem_reverse.2 ht
  obtain ⟨q, inner, hd, hq⟩ := dropWhile_not_same ht'
  have hs : ids (q :: inner) <:+ ids (p :: rest).reverse := by
    rw [← hd]
    exact (List.dropWhile_suffix _).map _
  rw [ids_reverse] at hs
  have hpre : (target.components :: ids inner).reverse <+: ids (p :: rest) := by
    rw [← List.reverse_suffix, List.reverse_reverse, ← hq]
    exact hs
  cases hr : (target.components :: ids inner).reverse with
  | nil => simp at hr
  | cons a back =>
    rw [hr] at hpre
    have ha : a = p.components := (List.cons_prefix_cons.1 hpre).1
    exact ⟨ids inner, back, by rw [hd, ids_cons, hq], by rw [← ha, hr], ha ▸ hpre⟩

/-- A listed cycle with the files of the ring that is about to be closed ends in the same import. -/
theorem Sound.closedBy_of_isRotated {p target : FileId} {inner back : List FileId}
    {trail : List FileId}
    (h : Sound g trail s) (hr : (target :: inner).reverse = p :: back) (hp : p :: back <+: trail)
    {cycle : List Path} (hc : cycle ∈ s.cycles) (hi : (ids cycle).dropLast ~r target :: inner) :
    ClosedBy s.cycles p target := by
  obtain ⟨first, rest, hids, -, -⟩ := h.isCycle cycle hc
  have hring : (ids cycle).dropLast = first :: rest := by rw [hids, List.dropLast_concat]
  have hperm : (ids cycle).dropLast.reverse.Perm (p :: back) :=
    hr ▸ ((List.reverse_perm _).trans hi.perm).trans (List.reverse_perm _).symm
  cases hrev : (ids cycle).dropLast.reverse with
  | nil => simp [hring] at hrev
  | cons a tail =>
    rw [hrev] at hperm
    have ha : a ∈ trail := hp.subset (hperm.mem_iff.1 List.mem_cons_self)
    have heq := infix_eq_prefix h.nodup (h.opened cycle hc a tail hrev ha) hp hperm
    rw [← hrev, ← hr, List.reverse_inj, hring] at heq
    refine ⟨cycle, hc, back.reverse, ?_⟩
    rw [hids, heq, (List.cons.inj heq).1, ← List.reverse_reverse (target :: inner), hr]
    simp

/-- Listing the cycle that an import of the last file on the trail closes. -/
theorem Sound.push_cycle {p target : Path} {trail inner back : List FileId} {ring : List Path}
    (h : Sound g trail s) (he : g.Edge p.components target.components)
    (hring : ids ring = target.components :: inner)
    (hr : (target.components :: inner).reverse = p.components :: back)
    (hp : p.components :: back <+: trail) (hnew : ids (canonical ring) ∉ s.rings.map ids) :
    Sound g trail
      { s with rings := canonical ring :: s.rings, cycles := s.cycles ++ [ring ++ [target]] } := by
  have hread : ids (ring ++ [target]) = (target.components :: p.components :: back).reverse := by
    rw [← hr, List.reverse_cons, List.reverse_reverse, ids_append, hring, ids_cons, ids_nil]
  have hchain : (target.components :: p.components :: back).IsChain fun b a => g.Edge a b :=
    .cons_cons he <| h.chain.prefix hp
  have hback : p.components :: back ⊆ ids s.visited := List.Subset.trans hp.subset h.trail_visited
  have htarget : target.components ∈ ids s.visited :=
    hback (by rw [← hr]; exact List.mem_reverse.2 List.mem_cons_self)
  constructor
  case isCycle =>
    intro cycle hc
    rcases List.mem_append.1 hc with hc | hc
    · exact h.isCycle cycle hc
    · rw [List.mem_singleton] at hc
      subst hc
      refine ⟨target.components, inner, by simp [hring], ?_, ?_⟩
      · rw [← List.nodup_reverse, hr]
        exact h.nodup.sublist hp.sublist
      · rw [hread, List.isChain_reverse]
        exact hchain
  case rings => simp [h.rings]
  case distinct => exact List.nodup_cons.2 ⟨hnew, h.distinct⟩
  case visited =>
    intro cycle hc
    rcases List.mem_append.1 hc with hc | hc
    · exact h.visited cycle hc
    · rw [List.mem_singleton.1 hc, hread]
      intro a ha
      rcases List.mem_cons.1 (List.mem_reverse.1 ha) with rfl | ha
      · exact htarget
      · exact hback ha
  case trail_visited => exact h.trail_visited
  case nodup => exact h.nodup
  case chain => exact h.chain
  case opened =>
    intro cycle hc a tail hrev ha
    rcases List.mem_append.1 hc with hc | hc
    · exact h.opened cycle hc a tail hrev ha
    · rw [List.mem_singleton.1 hc, ids_append, ids_cons, ids_nil, List.dropLast_concat, hring, hr]
        at hrev
      exact hrev ▸ hp.isInfix
  case settled =>
    intro a ha
    exact (h.settled a ha).imp_right (Settled.mono (List.subset_append_left _ _))

theorem grows_close (s : Search) (trail : List Path) (target : Path) :
    s.Grows (s.close trail target) := by
  simp only [close]
  split
  · exact .refl
  · exact ⟨fun _ h => h, List.subset_append_left _ _⟩

/-- An import that leads back to an open file closes a listed cycle. -/
theorem Sound.close {p target : Path} {rest : List Path} (h : Sound g (ids (p :: rest)) s)
    (he : g.Edge p.components target.components) (ht : target.components ∈ ids (p :: rest)) :
    Sound g (ids (p :: rest)) (s.close (p :: rest) target) ∧
      ClosedBy (s.close (p :: rest) target).cycles p.components target.components := by
  obtain ⟨inner, back, hring, hr, hp⟩ := ring_of_trail ht
  simp only [Search.close]
  generalize (p :: rest).reverse.dropWhile (fun q => !q.same target) = ring at hring ⊢
  by_cases hseen : s.rings.any (sameAll (canonical ring)) = true
  · -- A rotation of the ring is listed; as both lie on the trail, they end in the same import.
    rw [if_pos hseen]
    obtain ⟨other, hm, hs⟩ := List.any_eq_true.1 hseen
    have hlisted : ids (canonical ring) ∈ s.rings.map ids :=
      List.mem_map.2 ⟨other, hm, (sameAll_iff.1 hs).symm⟩
    rw [h.rings, List.mem_reverse] at hlisted
    obtain ⟨cycle, hc, hcan⟩ := List.mem_map.1 hlisted
    have hrot := isRotated_of_ids_canonical_eq hcan
    rw [ids_dropLast, hring] at hrot
    exact ⟨h, h.closedBy_of_isRotated hr hp hc hrot⟩
  · rw [if_neg hseen]
    have hnew : ids (canonical ring) ∉ s.rings.map ids := fun hm => by
      obtain ⟨other, hm, hids⟩ := List.mem_map.1 hm
      exact hseen (List.any_eq_true.2 ⟨other, hm, sameAll_iff.2 hids.symm⟩)
    refine ⟨h.push_cycle he hring hr hp hnew, _,
      List.mem_append_right _ (List.mem_singleton_self _), back.reverse, ?_⟩
    rw [ids_append, hring, ← List.reverse_reverse (target.components :: inner), hr]
    simp

end Search

def follow (g : Graph) (fuel : Nat) (trail : List Path) (s : Search) (target : Path) : Search :=
  if !holds s.visited target then explore g fuel (target :: trail) target (s.visit target)
  else if holds trail target then s.close trail target
  else s

theorem explore_succ (fuel : Nat) (trail : List Path) (p : Path) (s : Search) :
    explore g (fuel + 1) trail p s = (g.imports p).foldl (follow g fuel trail) s := rfl

/-- With this much fuel the search leaves every file that it opens. -/
def ExploresSoundly (g : Graph) (fuel : Nat) : Prop :=
  ∀ (p : Path) (rest : List Path) (s : Search), s.Sound g (ids (p :: rest)) →
    g.unseen (ids s.visited) < fuel →
    (explore g fuel (p :: rest) p s).Sound g (ids rest) ∧ s.Grows (explore g fuel (p :: rest) p s)

theorem follow_sound {fuel : Nat} (hx : ExploresSoundly g fuel) {p target : Path} {rest : List Path}
    {s : Search} (h : s.Sound g (ids (p :: rest))) (hf : g.unseen (ids s.visited) < fuel + 1)
    (ht : target ∈ g.imports p) :
    (follow g fuel (p :: rest) s target).Sound g (ids (p :: rest)) ∧
      s.Grows (follow g fuel (p :: rest) s target) ∧
      (ClosedBy (follow g fuel (p :: rest) s target).cycles p.components target.components ∨
        Settled g (follow g fuel (p :: rest) s target).cycles target.components) := by
  have he := edge_of_mem_imports ht
  unfold follow
  split_ifs with hv hopen
  · -- A new file is opened, searched from and left, and so it is settled.
    have hnew : target.components ∉ ids s.visited := holds_eq_false_iff.1 (by simpa using hv)
    have hvisit := h.visit hnew (by simpa using he)
    have hless : g.unseen (ids (s.visit target).visited) < fuel :=
      Nat.lt_of_lt_of_le (unseen_cons_lt he.target_mem_nodes hnew) (Nat.le_of_lt_succ hf)
    obtain ⟨hsound, hgrows⟩ := hx target (p :: rest) _ hvisit hless
    refine ⟨hsound, (s.grows_visit target).trans hgrows, .inr ?_⟩
    refine (hsound.settled _ (hgrows.1 List.mem_cons_self)).resolve_left fun hm => ?_
    exact hnew (h.trail_visited hm)
  · obtain ⟨hsound, hclosed⟩ := h.close he (holds_iff.1 hopen)
    exact ⟨hsound, s.grows_close _ _, .inl hclosed⟩
  · -- A file that was left before is settled by the invariant.
    have hm : target.components ∈ ids s.visited := holds_iff.1 (by simpa using hv)
    refine ⟨h, .refl, .inr ((h.settled _ hm).resolve_left fun hm => hopen (holds_iff.2 hm))⟩

theorem foldl_follow_sound {fuel : Nat} (hx : ExploresSoundly g fuel) {p : Path}
    {rest targets : List Path}
    {s : Search} (h : s.Sound g (ids (p :: rest))) (hf : g.unseen (ids s.visited) < fuel + 1)
    (ht : targets ⊆ g.imports p) :
    (targets.foldl (follow g fuel (p :: rest)) s).Sound g (ids (p :: rest)) ∧
      s.Grows (targets.foldl (follow g fuel (p :: rest)) s) ∧
      ∀ t ∈ targets,
        ClosedBy (targets.foldl (follow g fuel (p :: rest)) s).cycles p.components t.components ∨
          Settled g (targets.foldl (follow g fuel (p :: rest)) s).cycles t.components := by
  induction targets generalizing s with
  | nil => exact ⟨h, .refl, by simp⟩
  | cons t targets ih =>
    rw [List.cons_subset] at ht
    obtain ⟨hsound, hgrows, hdone⟩ := follow_sound hx h hf ht.1
    obtain ⟨hsound', hgrows', hdone'⟩ :=
      ih hsound (Nat.lt_of_le_of_lt (unseen_anti hgrows.1) hf) ht.2
    refine ⟨hsound', hgrows.trans hgrows', fun q hq => ?_⟩
    rcases List.mem_cons.1 hq with rfl | hq
    · exact hdone.imp (ClosedBy.mono hgrows'.2) (Settled.mono hgrows'.2)
    · exact hdone' q hq

theorem exploresSoundly (fuel : Nat) : ExploresSoundly g fuel := by
  induction fuel with
  | zero => exact fun _ _ _ _ hf => absurd hf (Nat.not_lt_zero _)
  | succ fuel ih =>
    intro p rest s h hf
    obtain ⟨hsound, hgrows, hdone⟩ := foldl_follow_sound ih h hf (List.Subset.refl _)
    rw [explore_succ]
    refine ⟨hsound.leave (.of_edges fun b hb => ?_), hgrows⟩
    obtain ⟨t, ht, rfl⟩ := edge_components.1 hb
    exact hdone t ht

def searchFrom (g : Graph) (s : Search) (p : Path) : Search :=
  if holds s.visited p then s else explore g g.bound [p] p (s.visit p)

def searched (g : Graph) : Search := g.files.foldl (searchFrom g) .start

theorem cycles_eq (g : Graph) : g.cycles = g.searched.cycles := rfl

theorem searchFrom_sound {s : Search} (h : s.Sound g []) (p : Path) :
    (searchFrom g s p).Sound g [] ∧ s.Grows (searchFrom g s p) ∧
      p.components ∈ ids (searchFrom g s p).visited := by
  unfold searchFrom
  split_ifs with hv
  · exact ⟨h, .refl, holds_iff.1 hv⟩
  · have hnew : p.components ∉ ids s.visited := holds_eq_false_iff.1 (by simpa using hv)
    obtain ⟨hsound, hgrows⟩ :=
      exploresSoundly g.bound p [] _ (h.visit hnew (by simp)) (unseen_lt_bound _)
    exact ⟨hsound, (s.grows_visit p).trans hgrows, hgrows.1 List.mem_cons_self⟩

theorem foldl_searchFrom_sound {s : Search} (h : s.Sound g []) (ps : List Path) :
    (ps.foldl (searchFrom g) s).Sound g [] ∧ s.Grows (ps.foldl (searchFrom g) s) ∧
      ids ps ⊆ ids (ps.foldl (searchFrom g) s).visited := by
  induction ps generalizing s with
  | nil => exact ⟨h, .refl, List.nil_subset _⟩
  | cons p ps ih =>
    obtain ⟨hsound, hgrows, hp⟩ := searchFrom_sound h p
    obtain ⟨hsound', hgrows', hps⟩ := ih hsound
    exact ⟨hsound', hgrows.trans hgrows', List.cons_subset.2 ⟨hgrows'.1 hp, hps⟩⟩

theorem searched_sound (g : Graph) : g.searched.Sound g [] :=
  (foldl_searchFrom_sound Search.sound_start _).1

/-- Every walk of imports ends, if it takes no import that closes a listed cycle. -/
theorem settled (g : Graph) (a : FileId) : Settled g g.cycles a := by
  by_cases ha : a ∈ ids g.files
  · have hv := (foldl_searchFrom_sound (Search.sound_start (g := g)) g.files).2.2 ha
    exact (g.searched_sound.settled a hv).resolve_left (List.not_mem_nil)
  · exact .of_edges fun b hb => absurd hb.source_mem ha

theorem isCycle_of_mem {cycle : List Path} (h : cycle ∈ g.cycles) : g.IsCycle cycle :=
  g.searched_sound.isCycle cycle h

/-- A walk that comes back takes the last import of a listed cycle. -/
theorem exists_closing_step {v : FileId} {inner : List FileId}
    (h : (v :: inner ++ [v]).IsChain g.Edge) :
    ∃ a b, ClosedBy g.cycles a b ∧ [a, b] <:+: v :: inner ++ [v] := by
  by_contra hn
  have hopen : (v :: inner ++ [v]).IsChain (g.OpenEdge g.cycles) := by
    rw [List.isChain_iff_forall_rel_of_append_cons_cons] at h ⊢
    intro a b front back he
    refine ⟨h he, fun hc => hn ⟨a, b, hc, ?_⟩⟩
    exact he ▸ ⟨front, back, by simp⟩
  exact (settled g v).not_transGen (transGen_of_isChain hopen)

end QualityGate.Graph
