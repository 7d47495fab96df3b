import QualityGate.Proofs.PropDrilling
import Mathlib.Data.Nat.SuccPred
import Mathlib.Order.SuccPred.Archimedean

/-!
Attributes and elements. The level of a tag counts attributes, on the way to it from the body of the
outermost component around it, since the ways from the bodies of the others are parts of this one.
Elements that forward props are as many only where each of them does so through one attribute.
-/
namespace QualityGate.PropDrilling

open Syntax Node

variable {file : SourceFile} {p : Place} {path other : List Node}

/-- The way to a place from the body of a component around it, the place first. -/
def Way (file : SourceFile) (p : Place) (path : List Node) : Prop :=
  ∃ (c : Place) (body : Node), p.path = path ++ c.path ∧ Component file c.node ∧
    c.node.child? .body = some body ∧ path.getLast? = some body

theorem reaches_iff {level : ℕ} : Reaches (Component file) file p level ↔
    ∃ path, Way file p path ∧ handedOn file path = level := by
  constructor
  · rintro ⟨c, path, body, hpath, hc, hbody, hlast, hlevel⟩
    exact ⟨path, ⟨c, body, hpath, hc, hbody, hlast⟩, hlevel⟩
  · rintro ⟨path, ⟨c, body, hpath, hc, hbody, hlast⟩, hlevel⟩
    exact ⟨c, path, body, hpath, hc, hbody, hlast, hlevel⟩

theorem Way.isPrefix (h : Way file p path) : path <+: p.path := by
  obtain ⟨c, -, hpath, -⟩ := h
  exact ⟨c.path, hpath.symm⟩

/-- The way from the body of the outermost component: all others begin further down. -/
structure Outermost (file : SourceFile) (p : Place) (path : List Node) : Prop where
  way : Way file p path
  covers : ∀ other, Way file p other → other <+: path

theorem exists_outermost (h : Way file p path) : ∃ path, Outermost file p path := by
  have hbound : BddAbove {n | ∃ path, Way file p path ∧ path.length = n} := by
    refine ⟨p.path.length, ?_⟩
    rintro _ ⟨path, hway, rfl⟩
    exact hway.isPrefix.length_le
  obtain ⟨_, ⟨longest, hway, rfl⟩, hlongest⟩ :=
    BddAbove.exists_isGreatest_of_nonempty hbound ⟨_, path, h, rfl⟩
  refine ⟨longest, hway, fun other hother => ?_⟩
  exact List.prefix_of_prefix_length_le hother.isPrefix hway.isPrefix
    (hlongest ⟨other, hother, rfl⟩)

/-- No component is around one that stands at the top level of its file. -/
theorem outermost_of_topLevel {c body : Node} (hc : Component file c)
    (hbody : c.child? .body = some body) (hp : p ∈ places [] body) :
    Outermost file ⟨p.node, p.above ++ [c, file.root]⟩ p.path := by
  have hsplit : (⟨p.node, p.above ++ [c, file.root]⟩ : Place).path = p.path ++ [c, file.root] := rfl
  refine ⟨⟨⟨c, [file.root]⟩, body, hsplit, hc, hbody, getLast?_path hp⟩, fun other hother => ?_⟩
  refine List.prefix_of_prefix_length_le hother.isPrefix ⟨[c, file.root], hsplit.symm⟩ ?_
  obtain ⟨d, -, hpath, hd, -⟩ := hother
  rw [hsplit] at hpath
  have hlength := congrArg List.length hpath
  have hlast := congrArg List.getLast? hpath
  obtain ⟨n, above⟩ := d
  cases above with
  | nil =>
    -- The root of a file is no component.
    obtain rfl : file.root = n := by simpa [Place.path, List.getLast?_cons] using hlast
    rcases hd.kind with hkind | ⟨hkind, -⟩ <;> simp [file.isProgram] at hkind
  | cons a above =>
    simp only [Place.path, List.length_append, List.length_cons, List.length_nil] at hlength ⊢
    omega

theorem handedOn_append (path above : List Node) :
    handedOn file (path ++ above) = handedOn file path + handedOn file above := by
  induction path with
  | nil => exact (Nat.zero_add _).symm
  | cons n path ih => rw [List.cons_append, handedOn, handedOn, ih, Nat.add_assoc]

/-- The highest level of a place is that of the way from the outermost component. -/
theorem Outermost.isGreatest (h : Outermost file p path) :
    IsGreatest {level | Reaches (Component file) file p level} (handedOn file path) := by
  refine ⟨reaches_iff.2 ⟨path, h.way, rfl⟩, fun level hlevel => ?_⟩
  obtain ⟨other, hother, rfl⟩ := reaches_iff.1 hlevel
  obtain ⟨above, rfl⟩ := h.covers other hother
  rw [handedOn_append]
  exact Nat.le_add_right _ _

def forwardedBy (file : SourceFile) (n : Node) : ℕ := (tag? n).elim 0 (forwarded file)

/-- The number of elements along a path that forward props at all. -/
def forwarders (file : SourceFile) (path : List Node) : ℕ :=
  path.countP fun n => 0 < forwardedBy file n

theorem forwarders_cons (n : Node) (path : List Node) : forwarders file (n :: path) =
    (if 0 < forwardedBy file n then 1 else 0) + forwarders file path := by
  simp [forwarders, List.countP_cons, Nat.add_comm]

theorem forwarders_le_handedOn (path : List Node) : forwarders file path ≤ handedOn file path := by
  induction path with
  | nil => exact Nat.le_refl 0
  | cons n path ih =>
    rw [forwarders_cons, handedOn, ← forwardedBy]
    split_ifs <;> omega

theorem handedOn_le_forwarders_iff :
    handedOn file path ≤ forwarders file path ↔ ∀ n ∈ path, forwardedBy file n ≤ 1 := by
  induction path with
  | nil => simp [handedOn]
  | cons n path ih =>
    have hle : forwarders file path ≤ handedOn file path := forwarders_le_handedOn path
    rw [List.forall_mem_cons, ← ih, forwarders_cons, handedOn, ← forwardedBy]
    split_ifs <;> omega

/-- A tag is reported with the number of attributes that forward props on the way to it from the
body of the outermost component. This is at most the number of elements on the way that forward
props just where none of them does so through several attributes. -/
theorem check_counts_forwarders_iff (settings : Settings) (file : SourceFile) :
    ∃ es : List (Location × ℕ), check settings file =
      es.map (drilled settings.thresholds.maxPropDrilling) ∧
    ∀ e ∈ es, ∃ p ∈ places [] file.root, ∃ tag, tag? p.node = some tag ∧ e.1 = file.location tag ∧
      (∀ q ∈ places [] file.root, ∀ other, tag? q.node = some other →
        file.location other = e.1 → q = p) ∧
      ∃ path, Outermost file p path ∧ e.2 = handedOn file path ∧
      settings.thresholds.maxPropDrilling < e.2 ∧
        (e.2 ≤ forwarders file path ↔ ∀ n ∈ path, forwardedBy file n ≤ 1) := by
  refine ⟨_, check_eq settings, fun e he => ?_⟩
  obtain ⟨p, hp, tag, htag, hplace, -⟩ := mem_tags.1 (mem_worst he).1
  obtain ⟨place, level⟩ := e
  obtain rfl : place = file.location tag := hplace
  obtain ⟨hgreatest, hmax⟩ := mem_worst_iff.1 he
  simp only [mem_tags_iff hp htag] at hgreatest
  obtain ⟨way, hway, -⟩ := reaches_iff.1 hgreatest.1
  obtain ⟨path, houter⟩ := exists_outermost hway
  obtain rfl : level = handedOn file path := hgreatest.unique houter.isGreatest
  exact ⟨p, hp, tag, htag, rfl, fun q hq other hother h => eq_of_location_eq hq hp hother htag h,
    path, houter, rfl, hmax, handedOn_le_forwarders_iff⟩

/-- One element that forwards props four times is reported as four levels. -/
theorem levels_of_one_element : ∃ file, SourceFile.parse ⟨"Page.tsx"⟩ page = .ok file ∧
    check .default file = [drilled 3 (⟨1, 30⟩, 4)] ∧
    ∃ p tag path, tag? p.node = some tag ∧ file.location tag = ⟨1, 30⟩ ∧ Outermost file p path ∧
      forwarders file path = 1 := by
  have hrun : (SourceFile.parse ⟨"Page.tsx"⟩ page).toOption.any (fun file =>
      check .default file = [drilled 3 (⟨1, 30⟩, 4)] ∧
      ∃ c ∈ file.root.children, isComponent file c = true ∧
      ∃ body ∈ c.child? .body, ∃ p ∈ places [] body, ∃ tag ∈ tag? p.node, file.location tag =
        ⟨1, 30⟩ ∧ forwarders file p.path = 1) = true := by
    decide +kernel
  obtain ⟨file, hfile, h⟩ := exists_ok_of_any hrun
  obtain ⟨hcheck, c, -, hc, body, hbody, p, hp, tag, htag, hplace, hone⟩ := of_decide_eq_true h
  exact ⟨file, hfile, hcheck, ⟨p.node, p.above ++ [c, file.root]⟩, tag, p.path, htag, hplace,
    outermost_of_topLevel (isComponent_iff.1 hc) hbody hp, hone⟩

end QualityGate.PropDrilling
