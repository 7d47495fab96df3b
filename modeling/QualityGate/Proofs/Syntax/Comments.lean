import QualityGate.Proofs.Syntax.Programs
import QualityGate.Syntax.Comments

/-!
A tree stays well-formed where comments are added between its nodes: they fit where they are found,
carry no role, and are no parts of the nodes above them.
-/
namespace QualityGate.Syntax
namespace Comments
open Node

variable {text : Array Char} {n : Node} {ns : List Node} {left right start stop : Nat}
  {typed : Bool}

/-- What is asked of the tree of a text with `size` characters. -/
structure IsProgram (typed : Bool) (size : Nat) (root : Node) : Prop where
  kind : root.kind = .program
  ordered : orderedAll 0 size root.children = true
  marked : markedAll root.children = true
  shaped : root.shaped typed = true

/-- Where the comment begins that is being read, or else the place that is reached. -/
def Mode.opened (offset : Nat) : Mode → Nat
  | .code => offset
  | .line opened | .block opened => opened

def Mode.Before (offset : Nat) : Mode → Prop
  | .code => True
  | .line opened | .block opened => opened < offset

def IsComment (n : Node) : Prop := ∃ start stop, n = leaf .comment true start stop

theorem IsComment.good {d : Dialect} (h : IsComment n) : n.Good d := by
  obtain ⟨start, stop, rfl⟩ := h
  exact .leaf _ _ _

theorem orderedAll_comment (h : start < stop) (hns : orderedAll stop right ns = true) :
    orderedAll start right (leaf .comment true start stop :: ns) = true :=
  orderedAll_cons.2
    ⟨⟨Nat.le_refl _, h, le_of_orderedAll hns, orderedAll_nil.2 (Nat.le_of_lt h)⟩, hns⟩

/-- Comments stand side by side in the text where they are looked for. -/
theorem orderedAll_find {mode : Mode} {offset : Nat} {cs : List Char} (h : mode.Before offset)
    (hright : offset + cs.length ≤ right) :
    orderedAll (mode.opened offset) right (find mode offset cs) = true := by
  fun_induction find mode offset cs with
  | case1 offset cs ih =>
    rw [List.length_cons, List.length_cons] at hright
    exact ih (show offset < offset + 2 by omega) (by omega)
  | case2 offset cs ih =>
    rw [List.length_cons, List.length_cons] at hright
    exact ih (show offset < offset + 2 by omega) (by omega)
  | case3 offset c cs _ _ ih =>
    rw [List.length_cons] at hright
    exact orderedAll_widen (ih trivial (by omega)) (Nat.le_add_right _ _)
  | case4 offset opened c cs hend ih =>
    rw [List.length_cons] at hright
    exact orderedAll_comment h (orderedAll_widen (ih trivial (by omega)) (Nat.le_add_right _ _))
  | case5 offset opened c cs hend ih =>
    rw [List.length_cons] at hright
    exact ih (Nat.lt_succ_of_lt h) (by omega)
  | case6 offset opened cs ih =>
    rw [List.length_cons, List.length_cons] at hright
    exact orderedAll_comment (Nat.lt_add_right 2 h) (ih trivial (by omega))
  | case7 offset opened c cs _ ih =>
    rw [List.length_cons] at hright
    exact ih (Nat.lt_succ_of_lt h) (by omega)
  | case8 offset opened => exact orderedAll_comment h (orderedAll_nil.2 hright)
  | case9 mode offset _ =>
    refine orderedAll_nil.2 (Nat.le_trans ?_ hright)
    cases mode with
    | code => exact Nat.le_refl _
    | line opened => exact Nat.le_of_lt h
    | block opened => exact Nat.le_of_lt h

theorem orderedAll_between (hle : start ≤ stop) (hstop : stop ≤ text.size) :
    orderedAll start stop (between text start stop) = true := by
  unfold between
  split
  · have hlength : start + (text.extract start stop).toList.length ≤ stop := by
      simp only [Array.length_toList, Array.size_extract]
      omega
    exact orderedAll_find (show Mode.Before start .code from trivial) hlength
  · exact orderedAll_nil.2 hle

theorem insert_eq (n : Node) :
    insert text n = { n with children := insertAll text n.children } := by
  cases n
  rfl

theorem isComment_of_mem_find {mode : Mode} {offset : Nat} {cs : List Char}
    (h : n ∈ find mode offset cs) : IsComment n := by
  fun_induction find mode offset cs <;> grind [IsComment]

theorem isComment_of_mem_between (h : n ∈ between text start stop) : IsComment n := by
  unfold between at h
  split at h
  · exact isComment_of_mem_find h
  · contradiction

/-- Comments are left out by what does not look for them. -/
theorem filter_insertAll {p : Node → Bool} (hp : ∀ n, p (insert text n) = p n)
    (hcomment : ∀ n, IsComment n → p n = false) :
    (insertAll text ns).filter p = (ns.filter p).map (insert text) := by
  induction ns with
  | nil => rfl
  | cons n ns ih =>
    have hrest : (insertAll text (n :: ns)).filter p =
        (insert text n :: insertAll text ns).filter p := by
      cases ns with
      | nil => rfl
      | cons m ns =>
        have hbetween : (between text n.stop m.start).filter p = [] :=
          List.filter_eq_nil_iff.2 fun c hc => by simp [hcomment c (isComment_of_mem_between hc)]
        rw [insertAll, List.filter_cons, List.filter_append, hbetween, List.nil_append,
          ← List.filter_cons]
    rw [hrest, List.filter_cons, List.filter_cons, hp, ih]
    split <;> rfl

theorem parts_insert (n : Node) : (insert text n).parts = n.parts.map (insert text) := by
  rw [insert_eq]
  refine filter_insertAll (fun n => by rw [insert_eq]) fun c hc => ?_
  obtain ⟨start, stop, rfl⟩ := hc
  rfl

theorem has_insert (n : Node) (role : Role) : (insert text n).has role = n.has role := by
  have hfilter : (insertAll text n.children).filter (fun c => c.role == some role) =
      (n.children.filter fun c => c.role == some role).map (insert text) :=
    filter_insertAll (fun n => by rw [insert_eq]) fun c hc => by
      obtain ⟨start, stop, rfl⟩ := hc
      rfl
  rw [insert_eq, has, has, child?, child?, ← List.head?_filter, ← List.head?_filter, hfilter,
    List.head?_map, Option.isSome_map]

theorem head?_insertAll : (insertAll text ns).head? = ns.head?.map (insert text) := by
  match ns with
  | [] | [_] | _ :: _ :: _ => rfl

theorem all_kind_ne_insertAll : ((insertAll text ns).all fun c => c.kind != .jsxAttribute) =
    ns.all fun c => c.kind != .jsxAttribute := by
  have hfilter : (insertAll text ns).filter (fun c => c.kind == .jsxAttribute) =
      (ns.filter fun c => c.kind == .jsxAttribute).map (insert text) :=
    filter_insertAll (fun n => by rw [insert_eq]) fun c hc => by
      obtain ⟨start, stop, rfl⟩ := hc
      rfl
  have hnone (ms : List Node) : (ms.all fun c => c.kind != .jsxAttribute) =
      (ms.filter fun c => c.kind == .jsxAttribute).isEmpty := by
    rw [Bool.eq_iff_iff, List.all_eq_true, List.isEmpty_iff, List.filter_eq_nil_iff]
    exact forall₂_congr fun c _ => by simp
  rw [hnone, hnone, hfilter, List.isEmpty_map]

theorem hasShape_insert (n : Node) : (insert text n).hasShape typed = n.hasShape typed := by
  have hkind (n : Node) : (insert text n).kind = n.kind := by rw [insert_eq]
  have hchildren : (insert text n).children = insertAll text n.children := by rw [insert_eq]
  have hparts : (insert text n).parts = n.parts.map (insert text) := parts_insert n
  have hrole : (insert text n).role = n.role := by rw [insert_eq]
  rw [hasShape, hasShape, hkind, hrole, has_insert, hchildren, all_kind_ne_insertAll,
    head?_insertAll, hparts]
  congr 1
  cases hk : n.kind with
  | string =>
    cases n.children with
    | nil => rfl
    | cons c cs => cases cs <;> rfl
  | templateString =>
    cases n.children with
    | nil => rfl
    | cons c cs => simp [insert_eq]
  | jsxAttribute =>
    have hattribute : hasShape.isAttributeShape (n.parts.map (insert text)) =
        hasShape.isAttributeShape n.parts := by
      rcases n.parts with _ | ⟨first, _ | ⟨second, _ | ⟨third, rest⟩⟩⟩
      · rfl
      · simp only [List.map, hasShape.isAttributeShape, hkind]
      · simp only [List.map, hasShape.isAttributeShape, hkind]
      · rfl
    simp only [hattribute]
  | jsxExpression => simp only [List.length_map]
  | parenthesizedExpression => simp only [← List.map_tail, List.all_map, Function.comp_def, hkind]
  | formalParameters => simp only [List.all_map, Function.comp_def, hkind, has_insert]
  | _ => rfl

theorem startsWith_insert (first : Option Node) (kind : Kind) :
    startsWith (first.map (insert text)) kind = startsWith first kind := by
  cases first with
  | none => rfl
  | some n => simp only [Option.map_some, insert_eq, startsWith, Option.any_some]

theorem mem_insertAll (h : n ∈ insertAll text ns) :
    (∃ m ∈ ns, n = insert text m) ∨ IsComment n := by
  induction ns with
  | nil => contradiction
  | cons m ns ih =>
    cases ns with
    | nil => exact .inl ⟨m, List.mem_cons_self, List.mem_singleton.1 h⟩
    | cons k ns =>
      rcases List.mem_cons.1 h with rfl | h
      · exact .inl ⟨m, List.mem_cons_self, rfl⟩
      rcases List.mem_append.1 h with h | h
      · exact .inr (isComment_of_mem_between h)
      · exact (ih h).imp_left fun ⟨c, hc, hn⟩ => ⟨c, List.mem_cons_of_mem m hc, hn⟩

theorem orderedAll_insertAll (hright : right ≤ text.size)
    (hns : ∀ n ∈ ns, ∀ left, Inside left right n → Inside left right (insert text n))
    (h : orderedAll left right ns = true) : orderedAll left right (insertAll text ns) = true := by
  induction ns generalizing left with
  | nil => exact h
  | cons n ns ih =>
    obtain ⟨hn, hrest⟩ := orderedAll_cons.1 h
    have hfirst := hns n List.mem_cons_self left hn
    have hstop : (insert text n).stop = n.stop := by rw [insert_eq]
    have hbelow {left : Nat} (h : orderedAll left right ns = true) :
        orderedAll left right (insertAll text ns) = true :=
      ih (fun m hm => hns m (List.mem_cons_of_mem n hm)) h
    cases ns with
    | nil => exact orderedAll_cons.2 ⟨hfirst, hstop ▸ hrest⟩
    | cons m ns =>
      obtain ⟨hm, hbehind⟩ := orderedAll_cons.1 hrest
      have hown : orderedAll m.start right (m :: ns) = true :=
        orderedAll_cons.2 ⟨{ hm with left_le := Nat.le_refl _ }, hbehind⟩
      have hstart := Nat.le_trans (Nat.le_trans (Nat.le_of_lt hm.start_lt) hm.le_right) hright
      have hgap := orderedAll_between hm.left_le hstart
      refine orderedAll_cons.2 ⟨hfirst, ?_⟩
      rw [hstop]
      exact orderedAll_append hgap (hbelow hown)

theorem inside_insert (n : Node) (left right : Nat) (hright : right ≤ text.size)
    (h : Inside left right n) : Inside left right (insert text n) := by
  induction n using Node.induct generalizing left right with
  | h n ih =>
    have hchildren : orderedAll n.start n.stop n.children = true := ordered_eq n ▸ h.ordered
    have hstop := Nat.le_trans h.le_right hright
    have hordered := orderedAll_insertAll hstop (fun c hc l => ih c hc l n.stop hstop) hchildren
    rw [insert_eq]
    exact { h with ordered := hordered }

theorem marked_insert (n : Node) (h : n.marked = true) : (insert text n).marked = true := by
  induction n using Node.induct with
  | h n ih =>
    obtain ⟨hleaf, hstart, hbelow⟩ := marked_iff.1 h
    rw [insert_eq, marked_iff]
    refine ⟨fun hnamed => ?_, ?_, fun c hc => ?_⟩
    · rw [show n.children = [] from hleaf hnamed]
      rfl
    · rw [head?_insertAll, startsWith_insert]
      exact hstart
    · rcases mem_insertAll hc with ⟨m, hm, rfl⟩ | hcomment
      · exact ih m hm (hbelow m hm)
      · exact (hcomment.good (d := ⟨true, true⟩)).marked

theorem shaped_insert (n : Node) (h : n.shaped typed = true) :
    (insert text n).shaped typed = true := by
  induction n using Node.induct with
  | h n ih =>
    obtain ⟨hshape, hbelow⟩ := shaped_iff.1 h
    refine shaped_iff.2 ⟨(hasShape_insert n).trans hshape, fun c hc => ?_⟩
    rw [insert_eq] at hc
    rcases mem_insertAll hc with ⟨m, hm, rfl⟩ | hcomment
    · exact ih m hm (hbelow m hm)
    · exact (hcomment.good (d := ⟨typed, true⟩)).shaped

theorem good_insert {d : Dialect} (h : n.Good d) : (insert text n).Good d :=
  ⟨marked_insert n h.marked, shaped_insert n h.shaped, by rw [insert_eq]; exact h.kind_ne⟩

theorem isProgram_branch {d : Dialect} {size : Nat} (h : Run (Good d) 0 size ns) :
    IsProgram d.typed size (branch .program ns) := by
  have hgood : (branch .program ns).Good d := .branch rfl h.good
  exact ⟨rfl, h.ordered, markedAll_iff.2 fun n hn => (h.good n hn).marked, hgood.shaped⟩

/-- The comments of a whole text fit between the nodes of its tree, before them and behind them. -/
theorem isProgram_insertRoot {d : Dialect} (h : Run (Good d) 0 text.size ns) :
    IsProgram d.typed text.size (insertRoot text (branch .program ns)) := by
  have hcomments (start stop : Nat) : ∀ n ∈ between text start stop, n.Good d :=
    fun n hn => (isComment_of_mem_between hn).good
  cases ns with
  | nil =>
    exact isProgram_branch
      ⟨orderedAll_between (Nat.zero_le _) (Nat.le_refl _), hcomments 0 text.size⟩
  | cons n ns =>
    obtain ⟨hroot, -⟩ := orderedAll_cons.1
      (orderedAll_branch .program (List.cons_ne_nil n ns) h.ordered)
    have hinside := inside_insert _ 0 text.size (Nat.le_refl _) hroot
    have hinner := hinside.ordered
    rw [insert_eq, ordered_eq] at hinner
    have hfront :=
      orderedAll_between (Nat.zero_le _) (Nat.le_trans (Nat.le_of_lt hroot.start_lt) hroot.le_right)
    have hback := orderedAll_between hroot.le_right (Nat.le_refl text.size)
    refine isProgram_branch ⟨orderedAll_append (orderedAll_append hfront hinner) hback, ?_⟩
    refine List.forall_mem_append.2 ⟨List.forall_mem_append.2 ⟨hcomments _ _, fun c hc => ?_⟩,
      hcomments _ _⟩
    rcases mem_insertAll hc with ⟨m, hm, rfl⟩ | hcomment
    · exact good_insert (h.good m hm)
    · exact hcomment.good

/-- What is read from a text is a program, comments included. -/
theorem isProgram_of_programOf {d : Dialect} {sealed : List Nat} {cs : List Char} {root : Node}
    (h : programOf d sealed cs = .ok root) :
    IsProgram d.typed cs.toArray.size (insertRoot cs.toArray root) := by
  obtain ⟨ns, rfl, hrun⟩ := program_of_programOf h
  exact isProgram_insertRoot hrun

end Comments
end QualityGate.Syntax
