import QualityGate.Proofs.Path.Names
import Mathlib.Data.List.DropRight

/-!
Walks by the text of a path. A relative path that is joined to a folder and followed by its text
alone leads where its steps lead, each of them up to the folder above, down along a name, or to no
other place.
-/
namespace QualityGate.Path

/-- The path leads along the names from the top of the disk. -/
def Along (p : Path) (names : List String) : Prop := p.components = .root :: names.map .name

/-- The steps that pieces of a path are, from one place to another. There is no step up from the
top. -/
inductive Walk : List String → List (List Char) → List String → Prop
  | done {names : List String} : Walk names [] names
  | stay {names target : List String} {piece : List Char} {pieces : List (List Char)}
    (h : isEmptyPiece piece = true) (k : Walk names pieces target) :
      Walk names (piece :: pieces) target
  | up {names target : List String} {name : String} {pieces : List (List Char)}
    (k : Walk names pieces target) : Walk (names ++ [name]) (['.', '.'] :: pieces) target
  | down {names target : List String} {name : String} {pieces : List (List Char)}
    (h : isName name = true) (k : Walk (names ++ [name]) pieces target) :
    Walk names (name.toList :: pieces) target

/-- One of the steps leads up from the top. -/
def Climbs (names : List String) (pieces : List (List Char)) : Prop :=
  ∃ front rest, pieces = front ++ ['.', '.'] :: rest ∧ Walk names front []

variable {p dir : Path} {names target : List String} {name : String} {pieces ss : List (List Char)}

theorem along_ofNames (h : ∀ n ∈ names, isName n = true) : (ofNames names).Along names :=
  components_ofNames h

theorem slash_not_mem_of_mem_split {cs s : List Char} (h : s ∈ split cs) : '/' ∉ s := by
  induction cs generalizing s with
  | nil =>
    obtain rfl := List.mem_singleton.1 h
    exact List.not_mem_nil
  | cons c cs ih =>
    rw [split] at h
    split_ifs at h with hc
    · rcases List.mem_cons.1 h with rfl | h
      · exact List.not_mem_nil
      · exact ih h
    · split at h
      · next t ts hts =>
        rcases List.mem_cons.1 h with rfl | h
        · rw [List.mem_cons, not_or]
          exact ⟨Ne.symm hc, ih (hts ▸ List.mem_cons_self)⟩
        · exact ih (hts ▸ List.mem_cons_of_mem _ h)
      · obtain rfl := List.mem_singleton.1 h
        simpa using Ne.symm hc

theorem componentOf_ne_root (s : List Char) : componentOf s ≠ .root := by
  rw [componentOf]
  split_ifs <;> simp

/-- Only paths from the top of the disk have it as a component. -/
theorem isAbsolute_of_root_mem (h : .root ∈ p.components) : p.isAbsolute = true := by
  by_contra hp
  have hnamed (ss : List (List Char)) : .root ∉ (ss.filter (!isEmptyPiece ·)).map componentOf := by
    intro hmem
    obtain ⟨s, -, hs⟩ := List.mem_map.1 hmem
    exact componentOf_ne_root s hs
  rw [components, if_neg hp] at h
  split at h
  · exact hnamed _ ((List.mem_cons.1 h).resolve_left (by simp))
  · exact hnamed _ h

theorem Along.isAbsolute (h : p.Along names) : p.isAbsolute = true :=
  isAbsolute_of_root_mem (h ▸ List.mem_cons_self)

theorem isName_of_name_mem {cs : List Char} (h : .name name ∈ named (split cs)) :
    isName name = true := by
  obtain ⟨s, hs, hname⟩ := List.mem_map.1 h
  obtain ⟨hs, hpiece⟩ := List.mem_filter.1 hs
  rw [componentOf] at hname
  split_ifs at hname with hup
  obtain rfl := Component.name.inj hname
  refine isName_iff.2 ⟨by simpa using hpiece,
    fun he => hup ?_, by simpa using slash_not_mem_of_mem_split hs⟩
  simpa using congrArg String.toList he

theorem Along.isName (h : p.Along names) : ∀ n ∈ names, isName n = true := by
  obtain ⟨cs, hcs⟩ := isAbsolute_iff.1 h.isAbsolute
  rw [Along, components_of_absolute hcs, List.cons_eq_cons] at h
  exact fun n hn => isName_of_name_mem (h.2 ▸ List.mem_map_of_mem hn)

theorem Along.unique (h : p.Along names) (k : p.Along target) : names = target :=
  map_name_injective (List.cons_eq_cons.1 (h.symm.trans k)).2

theorem Along.join (h : p.Along names) {more : List String} (hne : more ≠ [])
    (hmore : ∀ n ∈ more, Path.isName n = true) :
    (p.join ("/".intercalate more)).Along (names ++ more) := by
  rw [Along, components_join_names h.isAbsolute hne hmore, h, List.map_append, List.cons_append]

theorem components_of_isAbsolute (h : p.isAbsolute = true) :
    p.components = .root :: named p.pieces := by
  obtain ⟨cs, hcs⟩ := isAbsolute_iff.1 h
  have hpieces : p.pieces = split cs := by simp [pieces, hcs]
  rw [components_of_absolute hcs, hpieces]

/-- An absolute path without steps up leads along names. -/
theorem exists_along (h : p.isAbsolute = true) (hup : .up ∉ p.components) :
    ∃ names, p.Along names := by
  rw [components_of_isAbsolute h, List.mem_cons, not_or] at hup
  refine ⟨(p.pieces.filter (!isEmptyPiece ·)).map String.ofList, ?_⟩
  rw [Along, components_of_isAbsolute h, List.map_map]
  refine congrArg _ (List.map_congr_left fun s hs => ?_)
  rw [componentOf, if_neg fun he => hup.2 (List.mem_map.2 ⟨s, hs, by rw [componentOf, if_pos he]⟩)]
  rfl

theorem trimEnd_true (ss : List (List Char)) : trimEnd true ss = ss.rdropWhile isEmptyPiece := by
  simp [trimEnd, List.rdropWhile]

@[simp] theorem named_rdropWhile (ss : List (List Char)) :
    named (ss.rdropWhile isEmptyPiece) = named ss := by
  induction ss using List.reverseRecOn with
  | nil => rfl
  | append_singleton ss s ih =>
    cases hs : isEmptyPiece s with
    | true => rw [List.rdropWhile_concat_pos _ _ _ hs, ih, named_append]; simp [named, hs]
    | false => rw [List.rdropWhile_concat_neg _ _ _ (by simp [hs])]

theorem slash_not_mem_of_mem_pieces {s : List Char} (h : s ∈ p.pieces) : '/' ∉ s := by
  unfold pieces at h
  split at h <;> exact slash_not_mem_of_mem_split h

theorem named_split_joinPieces (h : ∀ s ∈ ss, '/' ∉ s) :
    named (split (joinPieces ss)) = named ss := by
  cases ss with
  | nil => rfl
  | cons s ss =>
    have hjoin : joinPieces (s :: ss) = ['/'].intercalate (s :: ss) := rfl
    rw [hjoin, split_eq_splitOn, List.splitOn_intercalate _ h (List.cons_ne_nil s ss)]

theorem parent?_of_isAbsolute (h : p.isAbsolute = true) :
    p.parent? = if p.pieces.rdropWhile isEmptyPiece = [] then none
      else some ⟨String.ofList
        ('/' :: joinPieces ((p.pieces.rdropWhile isEmptyPiece).dropLast.rdropWhile
          isEmptyPiece))⟩ := by
  rw [parent?, h, trimEnd_true]
  split
  · next hnil => rw [if_pos hnil]
  · next hne =>
    rw [if_neg hne, trimEnd_true]
    rfl

theorem isAbsolute_parent? (h : p.isAbsolute = true) (hdir : p.parent? = some dir) :
    dir.isAbsolute = true := by
  rw [parent?_of_isAbsolute h] at hdir
  split_ifs at hdir
  obtain rfl := Option.some.inj hdir
  simp [isAbsolute]

/-- Only the top of the disk has no folder above. -/
theorem along_nil_of_parent? (h : p.isAbsolute = true) (hdir : p.parent? = none) : p.Along [] := by
  rw [parent?_of_isAbsolute h] at hdir
  split_ifs at hdir with hnil
  have hnamed : named p.pieces = [] := by rw [← named_rdropWhile, hnil]; rfl
  rw [Along, components_of_isAbsolute h, hnamed, List.map_nil]

/-- In whatever spelling, the folder of a path leads along all names but the last one. -/
theorem Along.parent? (h : p.Along (names ++ [name])) :
    ∃ dir, p.parent? = some dir ∧ dir.Along names := by
  have habsolute := h.isAbsolute
  have hnames : named (p.pieces.rdropWhile isEmptyPiece) = names.map .name ++ [.name name] := by
    rw [Along, components_of_isAbsolute habsolute, List.cons_eq_cons] at h
    rw [named_rdropWhile, h.2, List.map_append, List.map_singleton]
  have hne : p.pieces.rdropWhile isEmptyPiece ≠ [] := fun he => by simp [he, named] at hnames
  have hlast := List.rdropWhile_last_not isEmptyPiece p.pieces hne
  have hslash :
      ∀ s ∈ (p.pieces.rdropWhile isEmptyPiece).dropLast.rdropWhile isEmptyPiece, '/' ∉ s :=
    fun s hs => slash_not_mem_of_mem_pieces <| (List.rdropWhile_prefix _ _).subset <|
      List.dropLast_subset _ <| (List.rdropWhile_prefix _ _).subset hs
  have hfront : named (p.pieces.rdropWhile isEmptyPiece).dropLast = names.map .name := by
    rw [← List.dropLast_append_getLast hne, named_append,
      named_singleton (by simpa using hlast)] at hnames
    exact (List.append_inj' hnames rfl).1
  refine ⟨_, (parent?_of_isAbsolute habsolute).trans (if_neg hne), ?_⟩
  exact (components_of_absolute String.toList_ofList).trans
    (by rw [named_split_joinPieces hslash, named_rdropWhile, hfront])

theorem named_cons_of_isEmptyPiece {piece : List Char} (h : isEmptyPiece piece = true) :
    named (piece :: pieces) = named pieces := by
  simp [named, h]

theorem named_up : named (['.', '.'] :: pieces) = .up :: named pieces := rfl

theorem named_name (h : isName name = true) :
    named (name.toList :: pieces) = .name name :: named pieces := by
  have hname : named ([name].map String.toList) = [.name name] := named_names (by simpa using h)
  rw [← List.singleton_append, named_append, ← List.map_singleton, hname, List.singleton_append]

/-- The place to which the steps lead is what is left of the text. -/
theorem Walk.foldl_step (h : Walk names pieces target) :
    (named pieces).foldl normalize.step (.root :: names.map .name) = .root :: target.map .name := by
  induction h with
  | done => rfl
  | stay hpiece _ ih => rw [named_cons_of_isEmptyPiece hpiece, ih]
  | @up names target name pieces _ ih =>
    have hstep :
        normalize.step (.root :: (names ++ [name]).map .name) .up = .root :: names.map .name := by
      rw [normalize.step, List.map_append, ← List.cons_append, if_neg (by simp)]
      exact List.dropLast_concat
    rw [named_up, List.foldl_cons, hstep, ih]
  | @down names target name pieces hname _ ih =>
    have hstep : normalize.step (.root :: names.map .name) (.name name) =
        .root :: (names ++ [name]).map .name := by simp [normalize.step]
    rw [named_name hname, List.foldl_cons, hstep, ih]

/-- A walk may begin with names. -/
theorem Walk.after_names {more : List String} (hmore : ∀ n ∈ more, Path.isName n = true)
    (h : Walk (names ++ more) pieces target) :
    Walk names (more.map String.toList ++ pieces) target := by
  induction more generalizing names with
  | nil => rwa [List.append_nil] at h
  | cons n more ih =>
    obtain ⟨hn, hmore⟩ := List.forall_mem_cons.1 hmore
    exact .down hn (ih hmore (by rwa [List.append_assoc]))

/-- Steps lead somewhere unless one of them climbs above the top. -/
theorem exists_walk_or_climbs (names : List String) (h : ∀ s ∈ pieces, '/' ∉ s) :
    (∃ target, Walk names pieces target) ∨ Climbs names pieces := by
  induction pieces generalizing names with
  | nil => exact .inl ⟨names, .done⟩
  | cons s pieces ih =>
    obtain ⟨hs, hpieces⟩ := List.forall_mem_cons.1 h
    cases hempty : isEmptyPiece s with
    | true =>
      refine (ih names hpieces).imp (fun ⟨target, k⟩ => ⟨target, .stay hempty k⟩) ?_
      rintro ⟨front, rest, rfl, k⟩
      exact ⟨s :: front, rest, rfl, .stay hempty k⟩
    | false =>
      by_cases hup : s = ['.', '.']
      · subst hup
        rcases List.eq_nil_or_concat' names with rfl | ⟨names, name, rfl⟩
        · exact .inr ⟨[], pieces, rfl, .done⟩
        · refine (ih names hpieces).imp (fun ⟨target, k⟩ => ⟨target, .up k⟩) ?_
          rintro ⟨front, rest, rfl, k⟩
          exact ⟨_ :: front, rest, rfl, .up k⟩
      · obtain ⟨name, rfl⟩ : ∃ name : String, s = name.toList := ⟨String.ofList s, by simp⟩
        have hname : Path.isName name = true :=
          isName_iff.2 ⟨hempty, fun he => hup (by simp [he]), hs⟩
        refine (ih (names ++ [name]) hpieces).imp (fun ⟨target, k⟩ => ⟨target, .down hname k⟩) ?_
        rintro ⟨front, rest, rfl, k⟩
        exact ⟨_ :: front, rest, rfl, .down hname k⟩

theorem Walk.isName (h : Walk names pieces target) (hnames : ∀ n ∈ names, Path.isName n = true) :
    ∀ n ∈ target, Path.isName n = true := by
  induction h with
  | done => exact hnames
  | stay _ _ ih => exact ih hnames
  | up _ ih => exact ih fun n hn => hnames n (List.mem_append_left _ hn)
  | down hname _ ih => exact ih (List.forall_mem_append.2 ⟨hnames, by simpa using hname⟩)

theorem ofComponents_names (names : List String) :
    ofComponents (.root :: names.map .name) = ofNames names := by
  have htext : (names.map Component.name).map Component.text = names := by
    rw [List.map_map]
    exact List.map_id names
  rw [ofComponents, htext, ofNames]

/-- A text that is joined to a folder and followed leads where its steps lead. -/
theorem Along.normalize_join (h : dir.Along names) {text : String}
    (ht : text.toList.head? ≠ some '/') (hwalk : Walk names (split text.toList) target) :
    (dir.join text).normalize = ofNames target := by
  have hall : Walk [] (names.map String.toList ++ split text.toList) target :=
    .after_names h.isName hwalk
  rw [normalize, components_join h.isAbsolute ht, h, List.cons_append, ← named_names h.isName,
    ← named_append, List.foldl_cons]
  exact (congrArg ofComponents hall.foldl_step).trans (ofComponents_names target)

/-- Steps lead up and down in a text, but never away from the top of the disk. -/
theorem isAbsolute_normalize (h : p.isAbsolute = true) : p.normalize.isAbsolute = true := by
  have hstep (out : List Component) (c : Component) :
      ∃ more, normalize.step (.root :: out) c = .root :: more := by
    cases c with
    | here => exact ⟨out, rfl⟩
    | up =>
      cases out with
      | nil => exact ⟨[.up], rfl⟩
      | cons o os => exact ⟨(o :: os).dropLast, by simp [normalize.step]⟩
    | root => exact ⟨out ++ [.root], rfl⟩
    | name n => exact ⟨out ++ [.name n], rfl⟩
  have hrun (cs out : List Component) :
      ∃ more, cs.foldl normalize.step (.root :: out) = .root :: more := by
    induction cs generalizing out with
    | nil => exact ⟨out, rfl⟩
    | cons c cs ih =>
      obtain ⟨more, hmore⟩ := hstep out c
      rw [List.foldl_cons, hmore]
      exact ih more
  obtain ⟨more, hmore⟩ := hrun (named p.pieces) []
  have hnormal : p.normalize = ofComponents (.root :: more) := by
    rw [normalize, components_of_isAbsolute h, List.foldl_cons, ← hmore]
    rfl
  simp [hnormal, ofComponents, isAbsolute]

theorem isAbsolute_withFileName (h : p.isAbsolute = true) :
    (p.withFileName name).isAbsolute = true := by
  unfold withFileName
  split
  · next dir hdir => exact isAbsolute_join (isAbsolute_parent? h hdir)
  · exact isAbsolute_join h

theorem isAbsolute_withExtension (h : p.isAbsolute = true) :
    (p.withExtension name).isAbsolute = true := by
  unfold withExtension
  split
  · exact isAbsolute_withFileName h
  · exact h

end QualityGate.Path
