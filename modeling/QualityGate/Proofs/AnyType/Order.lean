import QualityGate.Proofs.AnyType.Bindings

/-!
The order of diagnostics. A function is diagnosed for all its parameters at once, an export for all
its variables, before the walk comes to what stands between them. Each such list is in the order of
the text and stays inside its node, so the diagnostics of a file are in order as long as nothing
below a node comes before what the node itself is diagnosed for.
-/
namespace QualityGate.AnyType

open Syntax Node

variable {file : SourceFile} {p : Place} {n : Node} {ns : List Node} {ds es : List Diagnostic}
  {left middle right : ℕ}

/-- Diagnostics one after the other, between two offsets. -/
structure Ascending (file : SourceFile) (left right : ℕ) (ds : List Diagnostic) : Prop where
  pairwise : ds.Pairwise fun d e => d.place.lt e.place = true
  within : ∀ d ∈ ds, ∃ offset, left ≤ offset ∧ offset < right ∧ d.place = file.locate offset

namespace Ascending

theorem nil : Ascending file left right [] := ⟨.nil, List.forall_mem_nil _⟩

theorem singleton (h : Inside left right n) (cause : Cause) :
    Ascending file left right [⟨cause, file.location n⟩] :=
  ⟨List.pairwise_singleton _ _,
    List.forall_mem_singleton.2 ⟨n.start, h.left_le, h.start_lt.trans_le h.le_right, rfl⟩⟩

theorem widen {left' right' : ℕ} (h : Ascending file left right ds) (hl : left' ≤ left)
    (hr : right ≤ right') :
    Ascending file left' right' ds := by
  refine ⟨h.pairwise, fun d hd => ?_⟩
  obtain ⟨offset, hleft, hright, hd⟩ := h.within d hd
  exact ⟨offset, hl.trans hleft, hright.trans_le hr, hd⟩

/-- What is found further on in the text comes later. -/
theorem lt {left' right' : ℕ} (h : Ascending file left right ds)
    (k : Ascending file left' right' es) (happart : right ≤ left')
    (hsize : right' ≤ file.text.size) :
    ∀ d ∈ ds, ∀ e ∈ es, d.place.lt e.place = true := by
  intro d hd e he
  obtain ⟨a, -, ha, hd⟩ := h.within d hd
  obtain ⟨b, hb, hend, he⟩ := k.within e he
  rw [hd, he]
  exact file.locate_lt (ha.trans_le (happart.trans hb)) (hend.le.trans hsize)

theorem append (h : Ascending file left middle ds) (k : Ascending file middle right es)
    (hl : left ≤ middle) (hr : middle ≤ right) (hsize : right ≤ file.text.size) :
    Ascending file left right (ds ++ es) :=
  ⟨List.pairwise_append.2 ⟨h.pairwise, k.pairwise, h.lt k le_rfl hsize⟩,
    List.forall_mem_append.2 ⟨(h.widen le_rfl hr).within, (k.widen hl le_rfl).within⟩⟩

/-- What is found in each of several siblings. -/
theorem flatMap {f : Node → List Diagnostic} (hordered : orderedAll left right ns = true)
    (hsize : right ≤ file.text.size)
    (h : ∀ n ∈ ns, Inside n.start n.stop n → n.stop ≤ file.text.size →
      Ascending file n.start n.stop (f n)) :
    Ascending file left right (ns.flatMap f) := by
  induction ns generalizing left with
  | nil => exact nil
  | cons n ns ih =>
    obtain ⟨hn, hns⟩ := orderedAll_cons.1 hordered
    obtain ⟨hfirst, hlater⟩ := List.forall_mem_cons.1 h
    have hstart := hfirst hn.own (hn.le_right.trans hsize)
    rw [List.flatMap_cons]
    exact (hstart.widen hn.left_le le_rfl).append (ih hns hlater) (hn.left_le.trans hn.start_lt.le)
      hn.le_right hsize

end Ascending

theorem ascending_boundNames (cause : String → Cause) (h : Inside left right n)
    (hsize : right ≤ file.text.size) :
    Ascending file left right ((boundNames n).map fun name => diagnostic file cause name name) := by
  rw [List.map_eq_flatMap]
  refine (Ascending.flatMap (orderedAll_boundNames n h.own) (h.le_right.trans hsize)
    fun name _ hname _ => ?_).widen
    h.left_le h.le_right
  exact .singleton hname _

theorem ascending_ofParameter (h : Inside left right n) (hsize : right ≤ file.text.size) :
    Ascending file left right (ofParameter file n) := by
  unfold ofParameter
  split_ifs
  · exact .nil
  · split
    · exact .nil
    · next pattern hpattern =>
      have hinside : Inside left right pattern := h.child (List.mem_of_find?_eq_some hpattern)
      split
      · exact .singleton hinside _
      · exact ascending_boundNames _ hinside hsize
      · exact ascending_boundNames _ hinside hsize
      · exact .singleton hinside _
      · exact .nil

theorem ascending_ofFunction (h : Inside left right p.node) (hsize : right ≤ file.text.size) :
    Ascending file left right (ofFunction file p) := by
  unfold ofFunction
  split_ifs
  · exact .nil
  · split
    · next only _ honly =>
      split_ifs
      · exact .singleton (h.child (List.mem_of_find?_eq_some honly)) _
      · exact .nil
    · next all _ hall =>
      have hinside : Inside left right all := h.child (List.mem_of_find?_eq_some hall)
      have hparts : orderedAll all.start all.stop all.parts = true :=
        orderedAll_sublist (ordered_eq all ▸ hinside.ordered) List.filter_sublist
      exact (Ascending.flatMap hparts (hinside.le_right.trans hsize)
        fun n _ => ascending_ofParameter).widen
        hinside.left_le hinside.le_right
    · exact .nil

theorem ascending_ofNew (functions : List String) (h : Inside left right n) :
    Ascending file left right (ofNew file functions n) := by
  unfold ofNew
  split
  · split_ifs
    · exact .singleton h _
    · exact .nil
  · exact .nil

theorem ascending_ofExport (h : Inside left right n) (hsize : right ≤ file.text.size) :
    Ascending file left right (ofExport file n) := by
  unfold ofExport
  split
  · next d hd =>
    have hinside : Inside left right d := h.child (List.mem_of_find?_eq_some hd)
    have hvariables : orderedAll d.start d.stop
        (d.parts.filter fun v => v.kind = .variableDeclarator && isBare v) = true :=
      orderedAll_sublist (ordered_eq d ▸ hinside.ordered)
        (List.filter_sublist.trans List.filter_sublist)
    split_ifs
    · rw [List.filterMap_eq_flatMap_toList, List.map_flatMap]
      refine (Ascending.flatMap hvariables (hinside.le_right.trans hsize) fun v _ hv _ => ?_).widen
        hinside.left_le hinside.le_right
      cases hname : v.child? .name with
      | none => exact .nil
      | some name => exact .singleton (hv.child (List.mem_of_find?_eq_some hname)) _
    · exact .nil
  · exact .nil

theorem ascending_ofField (h : Inside left right n) :
    Ascending file left right (ofField file n) := by
  unfold ofField
  split_ifs
  · cases hname : n.child? .name with
    | none => exact .nil
    | some name => exact .singleton (h.child (List.mem_of_find?_eq_some hname)) _
  · exact .nil

theorem ascending_ofPlace (functions : List String) (h : Inside left right p.node)
    (hsize : right ≤ file.text.size) : Ascending file left right (ofPlace file functions p) := by
  unfold ofPlace
  split_ifs
  · exact ascending_ofFunction h hsize
  · split
    · exact ascending_ofNew functions h
    · exact ascending_ofExport h hsize
    · exact ascending_ofField h
    · exact .nil

def found (file : SourceFile) (p : Place) : List Diagnostic :=
  ofPlace file (declaredFunctions file) p

/-- The root is diagnosed for nothing, and other places inside themselves. -/
theorem ascending_found (hp : p ∈ places [] file.root) :
    found file p = [] ∨ Ascending file p.node.start p.node.stop (found file p) ∧
      p.node.stop ≤ file.text.size := by
  rcases file.eq_root_or hp with hroot | ⟨-, hinside⟩
  · left
    simp [found, ofPlace, hroot, file.isProgram, Kind.isFunctionLike]
  · exact .inr ⟨ascending_ofPlace _ hinside.own hinside.le_right, hinside.le_right⟩

/-- What a place is diagnosed for comes before what some other place is. -/
def Precedes (file : SourceFile) (p q : Place) : Prop :=
  ∀ d ∈ found file p, ∀ e ∈ found file q, d.place.lt e.place = true

theorem precedes_of_apart {q : Place} (hp : p ∈ places [] file.root) (hq : q ∈ places [] file.root)
    (h : p.node.stop ≤ q.node.start) : Precedes file p q := by
  intro d hd e he
  rcases ascending_found hp with hnone | ⟨hpfound, -⟩
  · simp [hnone] at hd
  · rcases ascending_found hq with hnone | ⟨hqfound, hsize⟩
    · simp [hnone] at he
    · exact hpfound.lt hqfound h hsize d hd e he

/-- What a single place is diagnosed for is in the order of the text, without repetition. The
diagnostics of the whole file are just if what is below a place never comes before, or at, what the
place itself is diagnosed for. -/
theorem diagnostics_ascend_iff (file : SourceFile) :
    (∀ p ∈ places [] file.root, ((found file p).map (·.place)).Pairwise fun l m => l.lt m = true) ∧
      (((diagnostics file).map (·.place)).Pairwise (fun l m => l.lt m = true) ↔
        ∀ p ∈ places [] file.root, ∀ q ∈ placesAll p.path p.node.children, Precedes file p q) := by
  have hsingle (p : Place) (hp : p ∈ places [] file.root) :
      (found file p).Pairwise fun d e => d.place.lt e.place = true := by
    rcases ascending_found hp with hnone | ⟨hfound, -⟩
    · exact hnone ▸ .nil
    · exact hfound.pairwise
  refine ⟨fun p hp => List.pairwise_map.2 (hsingle p hp), ?_⟩
  calc ((diagnostics file).map (·.place)).Pairwise (fun l m => l.lt m = true)
    _ ↔ (places [] file.root).Pairwise (Precedes file) := by
      rw [List.pairwise_map, diagnostics, List.pairwise_flatMap]
      exact and_iff_right hsingle
    _ ↔ _ := file.pairwise_places_iff fun p hp q hq => precedes_of_apart hp hq

def defaulted : String := "function f(a = (x) => x, b) \x7b\x7d"

/-- The parameter behind the default comes before the one of the function in it. -/
theorem diagnostics_of_defaulted : ∃ file, SourceFile.parse ⟨"a.ts"⟩ defaulted = .ok file ∧
    (diagnostics file).map (·.place) = [⟨1, 26⟩, ⟨1, 17⟩] := by
  have hrun : (SourceFile.parse ⟨"a.ts"⟩ defaulted).toOption.any (fun file =>
      (diagnostics file).map (·.place) = [⟨1, 26⟩, ⟨1, 17⟩]) = true := by
    decide +kernel
  obtain ⟨file, hfile, h⟩ := exists_ok_of_any hrun
  exact ⟨file, hfile, of_decide_eq_true h⟩

end QualityGate.AnyType
