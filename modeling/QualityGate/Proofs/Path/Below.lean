import QualityGate.Proofs.Path.Walk

/-!
What leads from one path down to another. Its components are those of the lower path behind those
of the upper one, and it has no characters that the lower path has not.
-/
namespace QualityGate.Path

variable {p root : Path} {short : String} {ss : List (List Char)} {n : ℕ} {c : Char}

theorem isSome_below?_iff :
    (p.below? root).isSome = true ↔ root.components <+: p.components := by
  rw [← isSome_dropPrefix?_iff, ← startsWith, below?]
  cases p.startsWith root with
  | false => simp
  | true => cases root.components.length <;> simp

theorem eq_append_of_startsWith (h : p.startsWith root = true) :
    p.components = root.components ++ p.components.drop root.components.length :=
  (List.prefix_iff_eq_append.1 (isSome_dropPrefix?_iff.1 h)).symm

theorem components_of_pieces (hp : p.isAbsolute = false) (h : p.pieces.head? ≠ some ['.']) :
    p.components = named p.pieces := by
  unfold components
  rw [hp, if_neg Bool.false_ne_true]
  split
  · next ss hss => simp [hss] at h
  · rfl

theorem components_of_here (hp : p.isAbsolute = false) (h : p.pieces = ['.'] :: ss) :
    p.components = .here :: named ss := by
  simp [components, hp, h, named]

/-- Each step of the search for the rest passes one component. -/
theorem named_spellingAfter_go (n : ℕ) (ss : List (List Char)) :
    named (spellingAfter.go n ss) = (named ss).drop n := by
  fun_induction spellingAfter.go n ss with
  | case1 n => simp [named]
  | case2 s ss h ih => rw [ih, named_cons_of_isEmptyPiece h]
  | case3 s ss h => rfl
  | case4 n s ss h ih => rw [ih, named_cons_of_isEmptyPiece h]
  | case5 n s ss h ih =>
    rw [ih, ← List.singleton_append, named_append, named_singleton (by simpa using h)]
    rfl

theorem spellingAfter_go_subset (n : ℕ) (ss : List (List Char)) : spellingAfter.go n ss ⊆ ss := by
  fun_induction spellingAfter.go n ss with
  | case1 n => exact List.Subset.refl _
  | case3 s ss h => exact List.Subset.refl _
  | case2 s ss h ih => exact List.subset_cons_of_subset _ ih
  | case4 n s ss h ih => exact List.subset_cons_of_subset _ ih
  | case5 n s ss h ih => exact List.subset_cons_of_subset _ ih

theorem head?_spellingAfter_go {s : List Char} (h : s ∈ (spellingAfter.go n ss).head?) :
    isEmptyPiece s = false := by
  fun_induction spellingAfter.go n ss with
  | case1 n => simp at h
  | case3 first ss hs =>
    obtain rfl : first = s := by simpa using h
    simpa using hs
  | case2 first ss hs ih => exact ih h
  | case4 n first ss hs ih => exact ih h
  | case5 n first ss hs ih => exact ih h

theorem mem_of_mem_trimEnd {absolute : Bool} {s : List Char} (h : s ∈ trimEnd absolute ss) :
    s ∈ ss := by
  have hkept : (ss.reverse.dropWhile isEmptyPiece).reverse ⊆ ss := fun s hs =>
    List.mem_reverse.1 ((List.dropWhile_suffix _).subset (List.mem_reverse.1 hs))
  simp only [trimEnd] at h
  split_ifs at h with hhere
  · simp only [Bool.and_eq_true, beq_iff_eq] at hhere
    exact List.mem_singleton.1 h ▸ List.mem_of_head? hhere.2
  · exact hkept h

theorem mem_joinPieces (h : c ∈ joinPieces ss) : c = '/' ∨ ∃ s ∈ ss, c ∈ s := by
  induction ss with
  | nil => simp [joinPieces] at h
  | cons s ss ih =>
    cases ss with
    | nil => exact .inr ⟨s, by simp, by simpa [joinPieces] using h⟩
    | cons t ts =>
      have hjoin : joinPieces (s :: t :: ts) = s ++ '/' :: joinPieces (t :: ts) := by
        simp [joinPieces]
      rw [hjoin, List.mem_append, List.mem_cons] at h
      rcases h with h | rfl | h
      · exact .inr ⟨s, by simp, h⟩
      · exact .inl rfl
      · exact (ih h).imp_right fun ⟨u, hu, hc⟩ => ⟨u, List.mem_cons_of_mem _ hu, hc⟩

/-- A relative spelling that begins with a name has the components that its pieces name. -/
theorem components_joinPieces (hss : ∀ s ∈ ss, '/' ∉ s)
    (hhead : ∀ s ∈ ss.head?, isEmptyPiece s = false) :
    (Path.mk (String.ofList (joinPieces ss))).components = named ss := by
  cases ss with
  | nil => rfl
  | cons s ss =>
    have hs : isEmptyPiece s = false := hhead s rfl
    obtain ⟨c, cs, rfl⟩ : ∃ c cs, s = c :: cs := List.exists_cons_of_ne_nil fun h => by
      simp [h, isEmptyPiece] at hs
    have hslash : c ≠ '/' := fun h => hss _ List.mem_cons_self (by simp [h])
    obtain ⟨rest, hjoin⟩ : ∃ rest, joinPieces ((c :: cs) :: ss) = c :: rest := by
      cases ss <;> simp [joinPieces]
    have hsplit : split (joinPieces ((c :: cs) :: ss)) = (c :: cs) :: ss := by
      rw [split_eq_splitOn]
      exact List.splitOn_intercalate _ hss (List.cons_ne_nil _ _)
    have hpieces : (Path.mk (String.ofList (joinPieces ((c :: cs) :: ss)))).pieces =
        (c :: cs) :: ss := by
      rw [pieces, String.toList_ofList, hjoin]
      split
      · next ds h => exact absurd (List.cons.inj h).1 hslash
      · rw [← hjoin, hsplit]
    rw [components_of_pieces, hpieces]
    · simp [isAbsolute, hjoin, hslash]
    · intro h
      rw [hpieces, List.head?_cons, Option.some.injEq] at h
      simp [h, isEmptyPiece] at hs

theorem head?_rdropWhile {s : List Char} (h : s ∈ (ss.rdropWhile isEmptyPiece).head?) :
    s ∈ ss.head? := by
  obtain ⟨rest, hrest⟩ := List.rdropWhile_prefix isEmptyPiece ss
  rw [← hrest, List.head?_append, h]
  rfl

theorem components_trimmed (hss : ∀ s ∈ ss, '/' ∉ s) (n : ℕ) :
    (Path.mk (String.ofList (joinPieces (trimEnd true (spellingAfter.go n ss))))).components =
      (named ss).drop n := by
  have hgo : ∀ s ∈ spellingAfter.go n ss, '/' ∉ s := fun s hs =>
    hss s (spellingAfter_go_subset n ss hs)
  rw [components_joinPieces fun s hs => hgo s (mem_of_mem_trimEnd hs), trimEnd_true,
    named_rdropWhile, named_spellingAfter_go]
  intro s hs
  rw [trimEnd_true] at hs
  exact head?_spellingAfter_go (head?_rdropWhile hs)

theorem components_spellingAfter (hn : n ≠ 0) :
    (Path.mk (String.ofList (spellingAfter p n))).components = p.components.drop n := by
  obtain ⟨n, rfl⟩ := Nat.exists_eq_succ_of_ne_zero hn
  have hslash : ∀ s ∈ p.pieces, '/' ∉ s := fun s => slash_not_mem_of_mem_pieces
  simp only [spellingAfter]
  rw [components_trimmed]
  · cases hp : p.isAbsolute with
    | true =>
      obtain ⟨cs, hcs⟩ := isAbsolute_iff.1 hp
      simp [components_of_absolute hcs, pieces, hcs]
    | false =>
      by_cases hhere : p.pieces.head? = some ['.']
      · obtain ⟨ss, hss⟩ := List.head?_eq_some_iff.1 hhere
        simp [components_of_here hp hss, hss]
      · simp [components_of_pieces hp hhere, hhere]
  · intro s hs
    split_ifs at hs
    · exact hslash s (List.mem_of_mem_drop hs)
    · exact hslash s hs

theorem components_of_trimmed_here (hss : ∀ s ∈ ss, '/' ∉ s) :
    (Path.mk (String.ofList (joinPieces (['.'] :: ss)))).components = .here :: named ss := by
  have hsplit : split (joinPieces (['.'] :: ss)) = ['.'] :: ss := by
    rw [split_eq_splitOn]
    exact List.splitOn_intercalate _ (List.forall_mem_cons.2 ⟨by decide, hss⟩)
      (List.cons_ne_nil _ _)
  obtain ⟨rest, hjoin⟩ : ∃ rest, joinPieces (['.'] :: ss) = '.' :: rest := by
    cases ss <;> simp [joinPieces]
  refine components_of_here ?_ ?_
  · simp [isAbsolute, hjoin]
  · have htext :
        (Path.mk (String.ofList (joinPieces (['.'] :: ss)))).text.toList = '.' :: rest := by
      rw [String.toList_ofList, hjoin]
    rw [pieces, htext, ← hsplit, hjoin]
    rfl

theorem head?_pieces (hp : p.isAbsolute = false) (h : p.pieces.head? ≠ some ['.']) {s : List Char}
    (hs : s ∈ (p.pieces.rdropWhile isEmptyPiece).head?) : isEmptyPiece s = false := by
  have hhead := head?_rdropWhile hs
  cases hempty : isEmptyPiece s with
  | false => rfl
  | true =>
    simp only [isEmptyPiece, Bool.or_eq_true, List.isEmpty_iff, beq_iff_eq] at hempty
    rcases hempty with rfl | rfl
    · -- Only a text that begins with a slash, or has nothing in it, has nothing in front.
      cases htext : p.text.toList with
      | nil =>
        have hpieces : p.pieces = [[]] := by simp [pieces, htext, split]
        simp [hpieces, isEmptyPiece, List.rdropWhile] at hs
      | cons c cs =>
        have hc : c ≠ '/' := by simpa [isAbsolute, htext] using hp
        have hpieces : p.pieces = split (c :: cs) := by simp [pieces, htext, hc]
        rw [hpieces, split, if_neg hc] at hhead
        split at hhead <;> simp at hhead
    · exact absurd hhead h

/-- Without its end a text has the same components. -/
theorem components_ofTrimmed : (Path.mk (String.ofList
    (if p.isAbsolute then '/' :: joinPieces (trimEnd p.isAbsolute p.pieces)
      else joinPieces (trimEnd p.isAbsolute p.pieces)))).components = p.components := by
  have hslash : ∀ s ∈ p.pieces, '/' ∉ s := fun s => slash_not_mem_of_mem_pieces
  have htrimmed : ∀ s ∈ p.pieces.rdropWhile isEmptyPiece, '/' ∉ s := fun s hs =>
    hslash s ((List.rdropWhile_prefix _ _).subset hs)
  cases hp : p.isAbsolute with
  | true =>
    obtain ⟨cs, hcs⟩ := isAbsolute_iff.1 hp
    have hpieces : p.pieces = split cs := by simp [pieces, hcs]
    have htext : (Path.mk (String.ofList
        ('/' :: joinPieces (p.pieces.rdropWhile isEmptyPiece)))).text.toList =
          '/' :: joinPieces (p.pieces.rdropWhile isEmptyPiece) := String.toList_ofList
    rw [if_pos rfl, trimEnd_true, components_of_absolute htext, components_of_absolute hcs,
      named_split_joinPieces htrimmed, named_rdropWhile, hpieces]
  | false =>
    have hkept : (p.pieces.reverse.dropWhile isEmptyPiece).reverse =
      p.pieces.rdropWhile isEmptyPiece := rfl
    rw [if_neg Bool.false_ne_true]
    by_cases hhere : p.pieces.head? = some ['.']
    · obtain ⟨ss, hss⟩ := List.head?_eq_some_iff.1 hhere
      have htrim : trimEnd false p.pieces = ['.'] :: ss.rdropWhile isEmptyPiece := by
        cases hrest : ss.rdropWhile isEmptyPiece with
        | nil =>
          have hdrop : (['.'] :: ss).rdropWhile isEmptyPiece = [] := by
            have hall : ∀ s ∈ ss, isEmptyPiece s = true := List.rdropWhile_eq_nil_iff.1 hrest
            exact List.rdropWhile_eq_nil_iff.2 (List.forall_mem_cons.2 ⟨rfl, hall⟩)
          rw [trimEnd, hkept, hss, hdrop]
          rfl
        | cons s rest =>
          have hdrop : (['.'] :: ss).rdropWhile isEmptyPiece = ['.'] :: s :: rest := by
            have hkeeps : ss.reverse.dropWhile isEmptyPiece = (s :: rest).reverse :=
              List.reverse_eq_iff.1 hrest
            rw [List.rdropWhile, List.reverse_cons, List.dropWhile_append, hkeeps]
            simp
          rw [trimEnd, hkept, hss, hdrop]
          rfl
      rw [htrim, components_of_trimmed_here, named_rdropWhile, components_of_here hp hss]
      exact fun s hs =>
        hslash s (hss ▸ List.mem_cons_of_mem _ ((List.rdropWhile_prefix _ _).subset hs))
    · have htrim : trimEnd false p.pieces = p.pieces.rdropWhile isEmptyPiece := by
        simp [trimEnd, hkept, hhere]
      rw [htrim, components_joinPieces htrimmed fun s => head?_pieces hp hhere, named_rdropWhile,
        components_of_pieces hp hhere]

/-- What leads from one path to another has the components that are left of the other one. -/
theorem components_below? (h : p.below? root = some short) :
    p.components = root.components ++ (Path.mk short).components := by
  unfold below? at h
  by_cases hroot : p.startsWith root
  · have hstart := eq_append_of_startsWith hroot
    rw [hstart]
    simp only [hroot, Bool.not_true, Bool.false_eq_true, if_false] at h
    split at h
    · next hzero =>
      obtain rfl := Option.some.inj h
      rw [components_ofTrimmed, List.length_eq_zero_iff.1 hzero]
      simp
    · next hne =>
      obtain rfl := Option.some.inj h
      rw [components_spellingAfter (by simpa using hne)]
  · simp [hroot] at h

theorem mem_of_mem_split {cs s : List Char} (hs : s ∈ split cs) (hc : c ∈ s) : c ∈ cs := by
  induction cs generalizing s with
  | nil =>
    obtain rfl : s = [] := by simpa [split] using hs
    cases hc
  | cons d cs ih =>
    rw [split] at hs
    split_ifs at hs
    · rcases List.mem_cons.1 hs with rfl | hs
      · cases hc
      · exact List.mem_cons_of_mem _ (ih hs hc)
    · split at hs
      · next first rest hsplit =>
        rcases List.mem_cons.1 hs with rfl | hs
        · rcases List.mem_cons.1 hc with rfl | hc
          · exact List.mem_cons_self
          · exact List.mem_cons_of_mem _ (ih (hsplit ▸ List.mem_cons_self) hc)
        · exact List.mem_cons_of_mem _ (ih (hsplit ▸ List.mem_cons_of_mem _ hs) hc)
      · obtain rfl := List.mem_singleton.1 hs
        obtain rfl := List.mem_singleton.1 hc
        exact List.mem_cons_self

/-- Nothing but slashes and characters of the path itself leads to it. -/
theorem mem_below? (h : p.below? root = some short) (hc : c ∈ short.toList) :
    c = '/' ∨ c ∈ p.text.toList := by
  have hpieces {ss : List (List Char)} (hss : ss ⊆ p.pieces) (hc : c ∈ joinPieces ss) :
      c = '/' ∨ c ∈ p.text.toList := by
    refine (mem_joinPieces hc).imp_right fun ⟨s, hs, hc⟩ => ?_
    have hs := hss hs
    unfold pieces at hs
    split at hs
    · next cs htext => exact htext ▸ List.mem_cons_of_mem _ (mem_of_mem_split hs hc)
    · exact mem_of_mem_split hs hc
  unfold below? at h
  by_cases hroot : p.startsWith root
  · simp only [hroot, Bool.not_true, Bool.false_eq_true, if_false] at h
    split at h
    · obtain rfl := Option.some.inj h
      rw [String.toList_ofList] at hc
      have htrimmed : trimEnd p.isAbsolute p.pieces ⊆ p.pieces := fun s => mem_of_mem_trimEnd
      split_ifs at hc
      · exact (List.mem_cons.1 hc).elim .inl (hpieces htrimmed)
      · exact hpieces htrimmed hc
    · obtain rfl := Option.some.inj h
      rw [String.toList_ofList] at hc
      refine hpieces (fun s hs => ?_) hc
      have hbody := spellingAfter_go_subset _ _ (mem_of_mem_trimEnd hs)
      split_ifs at hbody
      · exact List.mem_of_mem_drop hbody
      · exact hbody
  · simp [hroot] at h

end QualityGate.Path
