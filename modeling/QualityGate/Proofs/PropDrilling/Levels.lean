import QualityGate.Semantic.PropDrilling
import QualityGate.Proofs.Syntax.Cursor
import QualityGate.Proofs.Syntax.Places
import Mathlib.Order.Bounds.Basic

/-!
The levels of tags. The walk below a body keeps with each node that waits the count of the way that
led to it. What it keeps of all walks together is, for each place of a tag, the highest level, if
that exceeds the limit.
-/
namespace QualityGate.PropDrilling

open Syntax Node

section

variable {entry e : Location × ℕ} {es kept : List (Location × ℕ)} {p : Location} {max level : ℕ}

theorem mem_of_mem_raise (h : e ∈ raise entry kept) : e ∈ entry :: kept := by
  induction kept with
  | nil => exact h
  | cons first rest ih =>
    obtain ⟨place, level⟩ := first
    rw [raise] at h
    split_ifs at h with hplace
    · rcases List.mem_cons.1 h with rfl | h
      · rcases max_choice level entry.2 with hmax | hmax
        · rw [hmax]
          exact List.mem_cons_of_mem _ List.mem_cons_self
        · rw [hmax, ← hplace]
          exact List.mem_cons_self
      · exact List.mem_cons_of_mem _ (List.mem_cons_of_mem _ h)
    · exact h
    · rcases List.mem_cons.1 h with rfl | h
      · exact List.mem_cons_of_mem _ List.mem_cons_self
      · exact List.cons_subset_cons _ (List.subset_cons_self _ _) (ih h)

/-- No level is lost, unless to a higher one of the same place. -/
theorem exists_le_raise (h : e ∈ entry :: kept) :
    ∃ k ∈ raise entry kept, k.1 = e.1 ∧ e.2 ≤ k.2 := by
  induction kept with
  | nil => exact ⟨e, h, rfl, le_rfl⟩
  | cons first rest ih =>
    obtain ⟨place, level⟩ := first
    rw [raise]
    split_ifs with hplace
    · rcases List.mem_cons.1 h with rfl | h
      · exact ⟨_, List.mem_cons_self, hplace.symm, le_max_right _ _⟩
      · rcases List.mem_cons.1 h with rfl | h
        · exact ⟨_, List.mem_cons_self, rfl, le_max_left _ _⟩
        · exact ⟨e, List.mem_cons_of_mem _ h, rfl, le_rfl⟩
    · exact ⟨e, h, rfl, le_rfl⟩
    · rcases List.mem_cons.1 ((List.Perm.swap ..).mem_iff.1 h) with rfl | h
      · exact ⟨_, List.mem_cons_self, rfl, le_rfl⟩
      · obtain ⟨k, hk, hle⟩ := ih h
        exact ⟨k, List.mem_cons_of_mem _ hk, hle⟩

theorem mem_of_mem_foldl_raise (h : e ∈ es.foldl (fun kept entry => raise entry kept) kept) :
    e ∈ es ++ kept := by
  induction es generalizing kept with
  | nil => exact h
  | cons entry es ih =>
    rcases List.mem_append.1 (ih h) with h | h
    · exact List.mem_cons_of_mem _ (List.mem_append_left _ h)
    · exact List.perm_middle.mem_iff.1 (List.mem_append_right es (mem_of_mem_raise h))

theorem exists_le_foldl_raise (h : e ∈ es ++ kept) :
    ∃ k ∈ es.foldl (fun kept entry => raise entry kept) kept, k.1 = e.1 ∧ e.2 ≤ k.2 := by
  induction es generalizing kept e with
  | nil => exact ⟨e, h, rfl, le_rfl⟩
  | cons entry es ih =>
    rcases List.mem_append.1 (List.perm_middle.mem_iff.2 h) with h | h
    · exact ih (List.mem_append_left _ h)
    · obtain ⟨d, hd, hplace, hle⟩ := exists_le_raise h
      obtain ⟨k, hk, hplace', hle'⟩ := ih (List.mem_append_right es hd)
      exact ⟨k, hk, hplace'.trans hplace, hle.trans hle'⟩

/-- Levels are kept in the order of their places, each of which is there once. -/
def Ordered (kept : List (Location × ℕ)) : Prop :=
  (kept.map (·.1)).Pairwise fun p q => p.lt q = true

theorem Ordered.raise (h : Ordered kept) : Ordered (raise entry kept) := by
  induction kept with
  | nil => exact List.pairwise_singleton _ _
  | cons first rest ih =>
    obtain ⟨place, level⟩ := first
    obtain ⟨hfirst, hrest⟩ := List.pairwise_cons.1 h
    rw [PropDrilling.raise]
    split_ifs with he hlt
    · exact h
    · refine List.pairwise_cons.2 ⟨fun p hp => ?_, h⟩
      rcases List.mem_cons.1 hp with rfl | hp
      · exact hlt
      · exact Location.lt_trans hlt (hfirst p hp)
    · refine List.pairwise_cons.2 ⟨fun p hp => ?_, ih hrest⟩
      obtain ⟨e, hmem, rfl⟩ := List.mem_map.1 hp
      rcases List.mem_cons.1 (mem_of_mem_raise hmem) with rfl | hmem
      · exact Location.lt_of_ne_of_not_lt he hlt
      · exact hfirst e.1 (List.mem_map_of_mem hmem)

theorem Ordered.foldl_raise (h : Ordered kept) :
    Ordered (es.foldl (fun kept entry => PropDrilling.raise entry kept) kept) := by
  induction es generalizing kept with
  | nil => exact h
  | cons entry es ih => exact ih h.raise

/-- The places where a level exceeds `max`, with the highest level of each. -/
def worst (max : ℕ) (es : List (Location × ℕ)) : List (Location × ℕ) :=
  (es.filter fun e => e.2 > max).foldl (fun kept entry => raise entry kept) []

theorem ordered_worst (max : ℕ) (es : List (Location × ℕ)) : Ordered (worst max es) :=
  Ordered.foldl_raise .nil

theorem nodup_places_worst (max : ℕ) (es : List (Location × ℕ)) :
    ((worst max es).map (·.1)).Nodup := by
  refine (ordered_worst max es).imp fun h he => ?_
  rw [he, Location.lt_iff] at h
  omega

theorem mem_worst : e ∈ worst max es → e ∈ es ∧ max < e.2 := by
  intro h
  simpa using mem_of_mem_foldl_raise h

theorem exists_le_worst (he : e ∈ es) (hmax : max < e.2) :
    ∃ k ∈ worst max es, k.1 = e.1 ∧ e.2 ≤ k.2 :=
  exists_le_foldl_raise (List.mem_append_left [] (List.mem_filter.2 ⟨he, decide_eq_true hmax⟩))

theorem mem_places_worst : p ∈ (worst max es).map (·.1) ↔ ∃ e ∈ es, max < e.2 ∧ e.1 = p := by
  constructor
  · intro h
    obtain ⟨e, he, hp⟩ := List.mem_map.1 h
    exact ⟨e, (mem_worst he).1, (mem_worst he).2, hp⟩
  · rintro ⟨e, he, hmax, rfl⟩
    obtain ⟨k, hk, hplace, -⟩ := exists_le_worst he hmax
    exact List.mem_map.2 ⟨k, hk, hplace⟩

theorem mem_worst_iff : (p, level) ∈ worst max es ↔
    IsGreatest {l | (p, l) ∈ es} level ∧ max < level := by
  constructor
  · intro h
    refine ⟨⟨(mem_worst h).1, fun l hl => ?_⟩, (mem_worst h).2⟩
    rcases Nat.lt_or_ge max l with hmax | hmax
    · obtain ⟨k, hk, hplace, hle⟩ := exists_le_worst hl hmax
      rwa [List.inj_on_of_nodup_map (nodup_places_worst max es) hk h hplace] at hle
    · exact hmax.trans (mem_worst h).2.le
  · rintro ⟨⟨hmem, hle⟩, hmax⟩
    obtain ⟨⟨q, l⟩, hk, hplace, hl⟩ := exists_le_worst hmem hmax
    obtain rfl : q = p := hplace
    obtain rfl : level = l := Nat.le_antisymm hl (hle (mem_worst hk).1)
    exact hk

end

variable {file : SourceFile} {n : Node} {p : Place}

/-- The number of attributes that forward props on the elements along a path. -/
def handedOn (file : SourceFile) : List Node → ℕ
  | [] => 0
  | n :: path => (tag? n).elim 0 (forwarded file) + handedOn file path

def tagAt? (file : SourceFile) (p : Place) : Option (Location × ℕ) :=
  (tag? p.node).map fun tag => (file.location tag, handedOn file p.path)

def tagsAt (file : SourceFile) (ps : List Place) : List (Location × ℕ) := ps.filterMap (tagAt? file)

theorem tagsAt_append (ps qs : List Place) :
    tagsAt file (ps ++ qs) = tagsAt file ps ++ tagsAt file qs :=
  List.filterMap_append

/-- Keywords and punctuation are no elements. -/
theorem tag?_token (h : n.marked = true) (hn : n.named = false) : tag? n = none := by
  obtain ⟨htoken, hstart, -⟩ := marked_iff.1 h
  rw [htoken hn] at hstart
  unfold tag?
  split <;> simp_all [startsWith]

theorem places_token (h : n.marked = true) (hn : n.named = false) (above : List Node) :
    places above n = [⟨n, above⟩] := by
  rw [places_eq, (marked_iff.1 h).1 hn]
  rfl

/-- All elements below a node are below its named children. -/
theorem tagsAt_placesAll {ns : List Node} (h : ∀ n ∈ ns, n.marked = true) (above : List Node) :
    tagsAt file (placesAll above ns) =
      tagsAt file ((ns.filter (·.named)).flatMap (places above)) := by
  induction ns with
  | nil => rfl
  | cons n ns ih =>
    obtain ⟨hn, hns⟩ := List.forall_mem_cons.1 h
    rw [placesAll, tagsAt_append, ih hns]
    cases hnamed : n.named with
    | false => simp [places_token hn hnamed, tagsAt, tagAt?, tag?_token hn hnamed, hnamed]
    | true => rw [List.filter_cons_of_pos hnamed, List.flatMap_cons, tagsAt_append]

theorem tagsAt_places (h : p.node.marked = true) : tagsAt file (places p.above p.node) =
    (tagAt? file p).toList ++
      tagsAt file ((p.node.children.filter (·.named)).flatMap (places p.path)) := by
  rw [places_eq, ← List.singleton_append, tagsAt_append, tagsAt_placesAll (marked_iff.1 h).2.2]
  rfl

theorem keep_eq (max : ℕ) (p : Place) (kept : List (Location × ℕ)) :
    keep file max (handedOn file p.path) p.node kept =
      ((tagAt? file p).toList.filter fun e => e.2 > max).foldl (fun kept entry =>
        raise entry kept) kept := by
  cases htag : tag? p.node with
  | none => simp [keep, tagAt?, htag]
  | some tag =>
    by_cases hmax : max < handedOn file p.path <;> simp [keep, tagAt?, htag, hmax]

/-- What waits, each node with the count of the way that led to it. -/
def waiting (file : SourceFile) (ps : List Place) : List (Node × ℕ) :=
  ps.map fun p => (p.node, handedOn file p.above)

/-- The walk keeps the tags of all places at and below those that wait. -/
theorem survey_eq (max : ℕ) (ps : List Place) (h : ∀ p ∈ ps, p.node.marked = true)
    (kept : List (Location × ℕ)) :
    survey file max (waiting file ps) kept =
      ((tagsAt file (ps.flatMap fun p => places p.above p.node)).filter fun e => e.2 > max).foldl
        (fun kept entry => raise entry kept) kept := by
  generalize hpending : waiting file ps = pending
  fun_induction survey file max pending kept generalizing ps with
  | case1 kept =>
    obtain rfl := List.map_eq_nil_iff.1 hpending
    rfl
  | case2 n count pending kept level ih =>
    obtain ⟨p, qs, rfl, hp, hqs⟩ := List.map_eq_cons_iff.1 hpending
    obtain ⟨rfl, rfl⟩ := Prod.mk.inj hp
    obtain ⟨hmarked, hlater⟩ := List.forall_mem_cons.1 h
    let children : List Place := (p.node.children.filter (·.named)).map fun c => ⟨c, p.path⟩
    have hlevel : level = handedOn file p.path := Nat.add_comm _ _
    -- The children wait before all others, with the count of the way to their parent.
    have hwaiting : waiting file (children ++ qs) = childrenAt p.node level ++ pending := by
      rw [waiting, List.map_append, List.map_map, hlevel, ← hqs]
      rfl
    have hchildren : ∀ q ∈ children ++ qs, q.node.marked = true := by
      refine List.forall_mem_append.2 ⟨List.forall_mem_map.2 fun c hc => ?_, hlater⟩
      exact (marked_iff.1 hmarked).2.2 c (List.mem_of_mem_filter hc)
    rw [ih (children ++ qs) hchildren hwaiting, hlevel, keep_eq, List.flatMap_append,
      List.flatMap_map, List.flatMap_cons, tagsAt_append, tagsAt_append, tagsAt_places hmarked,
      List.append_assoc, List.filter_append (tagAt? file p).toList, List.foldl_append]

theorem mem_tagsAt {ps : List Place} {e : Location × ℕ} :
    e ∈ tagsAt file ps ↔ ∃ p ∈ ps, ∃ tag, tag? p.node = some tag ∧
      e = (file.location tag, handedOn file p.path) := by
  simp [tagsAt, tagAt?, List.mem_filterMap, eq_comm]

def bodies (file : SourceFile) : List Node :=
  (file.root.preorder.filter (isComponent file)).filterMap (·.child? .body)

/-- The tags in the bodies of components, each with the count of the way from the body to it. -/
def tags (file : SourceFile) : List (Location × ℕ) :=
  (bodies file).flatMap fun body => tagsAt file (places [] body)

theorem marked_of_mem_bodies {body : Node} (h : body ∈ bodies file) : body.marked = true := by
  obtain ⟨c, hc, hbody⟩ := List.mem_filterMap.1 h
  have hmem := List.mem_of_find?_eq_some hbody
  rw [preorder_eq] at hc
  obtain ⟨p, hp, rfl⟩ := List.mem_map.1 (List.mem_of_mem_filter hc)
  rcases file.eq_root_or hp with hroot | ⟨hmarked, -⟩
  · exact markedAll_iff.1 file.isMarked body (hroot ▸ hmem)
  · exact (marked_iff.1 hmarked).2.2 body hmem

/-- What the walks keep, one after the other, is what they would keep of all tags at once. -/
theorem levels_eq (max : ℕ) : levels file max = worst max (tags file) := by
  rw [worst, tags, List.filter_flatMap, List.foldl_flatMap, levels, ← bodies]
  refine List.foldl_ext _ _ _ fun kept body hbody => ?_
  have hmarked : ∀ p ∈ [(⟨body, []⟩ : Place)], p.node.marked = true :=
    List.forall_mem_singleton.2 (marked_of_mem_bodies hbody)
  have hstart : [(body, 0)] = waiting file [⟨body, []⟩] := rfl
  rw [hstart, survey_eq max _ hmarked, List.flatMap_singleton]

def drilled (max : ℕ) (e : Location × ℕ) : Violation :=
  (Violation.warning .noPropDrilling ("Props being passed through " ++ toString e.2
    ++ " component levels (max " ++ toString max ++ ")")).located e.1

theorem check_eq (settings : Settings) : check settings file =
    (worst settings.thresholds.maxPropDrilling (tags file)).map
      (drilled settings.thresholds.maxPropDrilling) := by
  rw [← levels_eq]
  rfl

end QualityGate.PropDrilling
