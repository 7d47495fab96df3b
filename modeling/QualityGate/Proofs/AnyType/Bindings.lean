import QualityGate.Semantic.AnyType
import QualityGate.Proofs.Syntax.Literals
import QualityGate.Proofs.Violation

/-!
The names that patterns bind. The search over a stack finds what a recursion over the pattern finds,
in the order of the text: the identifiers that the pattern binds and that have no default value on
the way to them. It misses one name, the word `undefined`, where it is not at the same time the key
of a member: the tree has a constant there and no identifier.
-/
namespace QualityGate.AnyType

open Syntax Node

variable {file : SourceFile} {n c name : Node} {ms ns way : List Node} {left middle right : ℕ}

namespace Search

theorem run_next (s : Search) : s.next.run = s.run := by
  obtain ⟨names, stack⟩ := s
  cases stack with
  | nil => rfl
  | cons n stack => rw [run.eq_2]

/-- What is found stays in front. -/
theorem run_prepend (before : List Node) (s : Search) :
    run ⟨before ++ s.names, s.stack⟩ = before ++ s.run := by
  fun_induction run s with
  | case1 names => rw [run]
  | case2 names n stack ih =>
    rw [next_cons] at ih ⊢
    rw [← run_next, next_cons, ← ih]
    split <;> simp

/-- The upper part of a stack is searched before the lower part. -/
theorem run_append (s : Search) (later : List Node) :
    run ⟨s.names, s.stack ++ later⟩ = run ⟨s.run, later⟩ := by
  fun_induction run s with
  | case1 names => rfl
  | case2 names n stack ih =>
    rw [next_cons] at ih ⊢
    rw [← ih, List.cons_append, ← run_next, next_cons, List.append_assoc]

/-- The names found and those that the nodes on the stack bind are, in every round, the names found
in the end. -/
theorem run_eq (names stack : List Node) :
    run ⟨names, stack⟩ = names ++ stack.flatMap boundNames := by
  induction stack generalizing names with
  | nil => rw [run, List.flatMap_nil, List.append_nil]
  | cons n stack ih =>
    have hfirst : run ⟨names, [n]⟩ = names ++ boundNames n := by
      rw [boundNames, ← run_prepend, List.append_nil]
    rw [List.flatMap_cons, ← List.append_assoc, ← hfirst, ← ih]
    exact run_append ⟨names, [n]⟩ stack

theorem exists_iterate_next (s : Search) :
    ∃ rounds ≤ countAll s.stack, next^[rounds] s = ⟨s.run, []⟩ := by
  fun_induction run s with
  | case1 names => exact ⟨0, Nat.zero_le _, rfl⟩
  | case2 names n stack ih =>
    obtain ⟨rounds, hle, h⟩ := ih
    exact ⟨rounds + 1, hle.trans_lt (countAll_next_lt names n stack), h⟩

end Search

/-- The names of a pattern are those of its elements, one after the other. -/
theorem boundNames_eq (n : Node) :
    boundNames n = if isBinding n.kind then [n] else (elements n).flatMap boundNames := by
  rw [boundNames, ← Search.run_next, Search.next_cons, List.append_nil, Search.run_eq]
  split_ifs with hkind
  · -- A name has no elements, so the stack is empty after it.
    have hleaf : elements n = [] := by
      unfold elements
      split <;> simp_all [isBinding]
    rw [hleaf]
    rfl
  · rfl

theorem elements_sublist (n : Node) : (elements n).Sublist n.children := by
  have hparts : n.parts.Sublist n.children := List.filter_sublist
  unfold elements
  split
  · exact hparts
  · exact hparts
  · exact hparts
  · cases hvalue : n.child? .value with
    | none => exact List.nil_sublist _
    | some value => exact List.singleton_sublist.2 (List.mem_of_find?_eq_some hvalue)
  · exact List.nil_sublist _

/-- What passes from the elements of a node to the node holds of all nodes. -/
theorem elements_induction {motive : Node → Prop}
    (step : ∀ n, (∀ c ∈ elements n, motive c) → motive n) (n : Node) : motive n :=
  step n fun c hc =>
    have : sizeOf c < sizeOf n := sizeOf_child ((elements_sublist n).subset hc)
    elements_induction step c
termination_by sizeOf n

theorem orderedAll_append (h : orderedAll left middle ms = true)
    (k : orderedAll middle right ns = true) (hright : middle ≤ right) :
    orderedAll left right (ms ++ ns) = true := by
  induction ms generalizing left with
  | nil => exact orderedAll_widen k (by simpa [orderedAll] using h)
  | cons m ms ih =>
    obtain ⟨hm, hms⟩ := orderedAll_cons.1 h
    exact orderedAll_cons.2 ⟨hm.widen le_rfl hright, ih hms⟩

theorem orderedAll_flatMap {f : Node → List Node} (h : orderedAll left right ns = true)
    (hf : ∀ n ∈ ns, Inside n.start n.stop n → orderedAll n.start n.stop (f n) = true) :
    orderedAll left right (ns.flatMap f) = true := by
  induction ns generalizing left with
  | nil => exact h
  | cons n ns ih =>
    obtain ⟨hn, hns⟩ := orderedAll_cons.1 h
    obtain ⟨hfirst, hlater⟩ := List.forall_mem_cons.1 hf
    rw [List.flatMap_cons]
    exact orderedAll_append (orderedAll_widen (hfirst hn.own) hn.left_le)
      (ih hns hlater) hn.le_right

/-- The names of a pattern stand side by side in it. -/
theorem orderedAll_boundNames (n : Node) :
    Inside n.start n.stop n → orderedAll n.start n.stop (boundNames n) = true := by
  induction n using elements_induction with
  | step n ih =>
    intro h
    have helements : orderedAll n.start n.stop (elements n) = true :=
      orderedAll_sublist (ordered_eq n ▸ h.ordered) (elements_sublist n)
    rw [boundNames_eq]
    split_ifs
    · exact orderedAll_cons.2 ⟨h, by simp [orderedAll]⟩
    · exact orderedAll_flatMap helements ih

def HasDefault (n : Node) : Prop := n.kind = .assignmentPattern ∨ n.kind = .objectAssignmentPattern

/-- A pattern hands a value, or a part of it, on to another one: to a member, to the value of a
pair, or to what has a default value. The key of a pair and the default value get nothing. -/
inductive HandsOn (n c : Node) : Prop
  | member (hn : n.kind = .objectPattern ∨ n.kind = .arrayPattern ∨
    n.kind = .restPattern) (hc : c ∈ n.parts)
  | value (hn : n.kind = .pairPattern) (hc : n.child? .value = some c)
  | target (hn : HasDefault n) (hc : n.parts.head? = some c)

/-- The way from a pattern down to one that gets a value from it, both included. -/
inductive Way : Node → Node → List Node → Prop
  | here (n : Node) : Way n n [n]
  | there {n c name : Node} {way : List Node} (hc : HandsOn n c) (h : Way c name way) :
    Way n name (n :: way)

/-- The word `undefined` as a node of its own. The tree takes it for a constant, but as a pattern it
is a name. -/
def IsUndefined (file : SourceFile) (n : Node) : Prop :=
  n.kind = .other ∧ file.textOf n = "undefined"

def IsName (file : SourceFile) (n : Node) : Prop :=
  n.kind = .identifier ∨ n.kind = .shorthandPropertyIdentifierPattern ∨ IsUndefined file n

/-- A name that a pattern binds without a default value: neither the name has one nor anything
around it. -/
def Binds (file : SourceFile) (pattern name : Node) : Prop :=
  IsName file name ∧ ∃ way, Way pattern name way ∧ ∀ e ∈ way, ¬ HasDefault e

theorem isBinding_iff :
    isBinding n.kind = true ↔ n.kind = .identifier ∨
      n.kind = .shorthandPropertyIdentifierPattern := by
  cases n.kind <;> simp [isBinding]

theorem mem_elements : c ∈ elements n ↔ HandsOn n c ∧ ¬ HasDefault n := by
  constructor
  · intro hc
    unfold elements at hc
    split at hc
    case h_1 | h_2 | h_3 => exact ⟨.member (by simp_all) hc, by simp_all [HasDefault]⟩
    case h_4 hkind => exact ⟨.value hkind (by simpa using hc), by simp [HasDefault, hkind]⟩
    case h_5 => exact absurd hc List.not_mem_nil
  · rintro ⟨hn | hn | hn, hdefault⟩
    · rcases hn with hn | hn | hn <;> simpa [elements, hn]
    · simpa [elements, hn]
    · exact absurd hn hdefault

theorem not_handsOn_of_isBinding (h : isBinding n.kind = true) : ¬ HandsOn n c := by
  intro hc
  rcases isBinding_iff.1 h with hn | hn <;> cases hc <;> simp_all [HasDefault]

/-- The identifiers found are those at the end of a way without default values. -/
theorem mem_boundNames (n : Node) : name ∈ boundNames n ↔
    isBinding name.kind = true ∧ ∃ way, Way n name way ∧ ∀ e ∈ way, ¬ HasDefault e := by
  induction n using elements_induction with
  | step n ih =>
    rw [boundNames_eq]
    split_ifs with hkind
    · rw [List.mem_singleton]
      constructor
      · rintro rfl
        refine ⟨hkind, [name], .here name, ?_⟩
        rcases isBinding_iff.1 hkind with hn | hn <;> simp [HasDefault, hn]
      · rintro ⟨-, way, hway, -⟩
        cases hway with
        | here => rfl
        | there hc _ => exact absurd hc (not_handsOn_of_isBinding hkind)
    · rw [List.mem_flatMap]
      constructor
      · rintro ⟨c, hc, hname⟩
        obtain ⟨hbinding, way, hway, hdefault⟩ := (ih c hc).1 hname
        obtain ⟨hon, hn⟩ := mem_elements.1 hc
        exact ⟨hbinding, n :: way, .there hon hway, List.forall_mem_cons.2 ⟨hn, hdefault⟩⟩
      · rintro ⟨hbinding, way, hway, hdefault⟩
        cases hway with
        | here => exact absurd hbinding hkind
        | there hon hway =>
          obtain ⟨hn, hdefault⟩ := List.forall_mem_cons.1 hdefault
          have hc := mem_elements.2 ⟨hon, hn⟩
          exact ⟨_, hc, (ih _ hc).2 ⟨hbinding, _, hway, hdefault⟩⟩

theorem not_isUndefined_of_isBinding (h : isBinding n.kind = true) : ¬ IsUndefined file n := by
  rintro ⟨hn, -⟩
  simp [isBinding, hn] at h

theorem mem_boundNames_iff (file : SourceFile) (pattern name : Node) :
    name ∈ boundNames pattern ↔ Binds file pattern name ∧ ¬ IsUndefined file name := by
  rw [mem_boundNames]
  constructor
  · rintro ⟨hbinding, hway⟩
    have hname : IsName file name := (isBinding_iff.1 hbinding).imp_right .inl
    exact ⟨⟨hname, hway⟩, not_isUndefined_of_isBinding hbinding⟩
  · rintro ⟨⟨hname, hway⟩, hundefined⟩
    exact ⟨isBinding_iff.2 (hname.imp_right fun h => h.resolve_right hundefined), hway⟩

theorem pairwise_boundNames {p : Place} (hp : p ∈ places [] file.root) :
    (boundNames p.node).Pairwise fun x y => x.start < y.start := by
  rcases file.eq_root_or hp with hroot | ⟨-, hinside⟩
  · rw [boundNames_eq, elements, hroot, file.isProgram]
    exact .nil
  · have hnames := orderedAll_boundNames p.node hinside.own
    refine (pairwise_of_orderedAll hnames).imp_of_mem fun hx _ happart => ?_
    exact (inside_of_orderedAll hnames _ hx).start_lt.trans_le happart

/-- The search over a pattern ends after at most as many rounds as the pattern has nodes. What it
finds stands in the order of the text, each name once: the names that the pattern binds without a
default value, except for the word `undefined`. So it finds all of them just if none is that
word. -/
theorem boundNames_complete_iff (file : SourceFile) {p : Place} (hp : p ∈ places [] file.root) :
    (∃ rounds ≤ p.node.count, Search.next^[rounds] ⟨[], [p.node]⟩ = ⟨boundNames p.node, []⟩) ∧
      (boundNames p.node).Pairwise (fun x y => x.start < y.start) ∧
      (∀ name, name ∈ boundNames p.node ↔ Binds file p.node name ∧ ¬ IsUndefined file name) ∧
      ((∀ name, name ∈ boundNames p.node ↔ Binds file p.node name) ↔
        ∀ name, Binds file p.node name → ¬ IsUndefined file name) := by
  refine ⟨Search.exists_iterate_next ⟨[], [p.node]⟩, pairwise_boundNames hp,
    mem_boundNames_iff file p.node, ?_⟩
  simp only [mem_boundNames_iff file p.node, and_iff_left_iff_imp]

def nestedPattern : String :=
  "function f(\x7b a, b: [c, \x7b d = 1, ...e \x7d], [k]: \x7b g: h = x, i: [[j] = y, ...[l]] \x7d \x7d) \x7b\x7d"

theorem boundNames_of_nestedPattern : ∃ file, SourceFile.parse ⟨"a.ts"⟩ nestedPattern = .ok file ∧
    ∃ p ∈ places [] file.root, (boundNames p.node).map file.textOf = ["a", "c", "e", "l"] ∧
      (∃ rounds ≤ p.node.count, Search.next^[rounds] ⟨[], [p.node]⟩ = ⟨boundNames p.node, []⟩) ∧
      (boundNames p.node).Pairwise (fun x y => x.start < y.start) ∧
      ∀ name, name ∈ boundNames p.node ↔ Binds file p.node name ∧ ¬ IsUndefined file name := by
  have hrun : (SourceFile.parse ⟨"a.ts"⟩ nestedPattern).toOption.any (fun file : SourceFile =>
      ∃ p ∈ places [] file.root, (boundNames p.node).map file.textOf =
        ["a", "c", "e", "l"]) = true := by
    decide +kernel
  obtain ⟨file, hfile, h⟩ := exists_ok_of_any hrun
  obtain ⟨p, hp, hnames⟩ := of_decide_eq_true h
  obtain ⟨hrounds, hordered, hmem, -⟩ := boundNames_complete_iff file hp
  exact ⟨file, hfile, p, hp, hnames, hrounds, hordered, hmem⟩

/-- One name as the key of a member, and as a member. -/
def undefinedTwice : String :=
  "function f(\x7b undefined \x7d) \x7b\x7d function g([undefined]) \x7b\x7d"

/-- Only the first of the two names is found and diagnosed. -/
theorem undefined_member_unnoticed : ∃ file, SourceFile.parse ⟨"a.ts"⟩ undefinedTwice = .ok file ∧
    diagnostics file = [⟨.element "undefined", ⟨1, 14⟩⟩] ∧
    ∃ p ∈ places [] file.root, p.node.kind = .arrayPattern ∧
      ∃ name, file.textOf name = "undefined" ∧ Binds file p.node name ∧
      name ∉ boundNames p.node := by
  have hrun : (SourceFile.parse ⟨"a.ts"⟩ undefinedTwice).toOption.any (fun file =>
      diagnostics file = [⟨.element "undefined", ⟨1, 14⟩⟩] ∧
      ∃ p ∈ places [] file.root, p.node.kind = .arrayPattern ∧
        ∃ name ∈ p.node.parts, name.kind = .other ∧ file.textOf name = "undefined") = true := by
    decide +kernel
  obtain ⟨file, hfile, h⟩ := exists_ok_of_any hrun
  obtain ⟨hdiagnostics, p, hp, hkind, name, hname, hundefined⟩ := of_decide_eq_true h
  have hway : Way p.node name [p.node, name] :=
    .there (.member (.inr (.inl hkind)) hname) (.here name)
  have hbinds : Binds file p.node name :=
    ⟨.inr (.inr hundefined), _, hway, by simp [HasDefault, hkind, hundefined.1]⟩
  refine ⟨file, hfile, hdiagnostics, p, hp, hkind, name, hundefined.2, hbinds, fun hfound => ?_⟩
  exact ((mem_boundNames_iff file p.node name).1 hfound).2 hundefined

end QualityGate.AnyType
