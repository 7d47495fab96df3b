import QualityGate.Path
import Mathlib.Data.List.Basic

/-!
Paths by their pieces: what a path joined from names leads to, and what the end of a path says of
its last name.
-/
namespace QualityGate.Path

theorem split_eq_splitOn (cs : List Char) : split cs = cs.splitOn '/' := by
  induction cs with
  | nil => rfl
  | cons c cs ih =>
    rw [split, List.splitOn_cons_eq_if_modifyHead, ih]
    simp only [beq_iff_eq]
    split_ifs
    · rfl
    · cases h : cs.splitOn '/' with
      | nil => exact absurd h (List.splitOn_ne_nil _ _)
      | cons s ss => rfl

theorem pieces_ne_nil (p : Path) : p.pieces ≠ [] := by
  unfold pieces
  split <;> rw [split_eq_splitOn] <;> exact List.splitOn_ne_nil _ _

/-- What follows the last slash of a text ends as the text does. -/
theorem split_append {suffix : List Char} (hs : '/' ∉ suffix) (cs : List Char) :
    ∃ front last, split (cs ++ suffix) = front ++ [last ++ suffix] := by
  induction cs with
  | nil => exact ⟨[], [], by simp [split_eq_splitOn, List.splitOn_eq_singleton hs]⟩
  | cons c cs ih =>
    obtain ⟨front, last, he⟩ := ih
    by_cases hc : c = '/'
    · exact ⟨[] :: front, last, by simp [split, hc, he]⟩
    · cases front with
      | nil => exact ⟨[], c :: last, by simp [split, hc, he]⟩
      | cons s ss => exact ⟨(c :: s) :: ss, last, by simp [split, hc, he]⟩

def named (ss : List (List Char)) : List Component := (ss.filter (!isEmptyPiece ·)).map componentOf

@[simp] theorem named_append (ss ts : List (List Char)) :
    named (ss ++ ts) = named ss ++ named ts := by
  simp [named]

@[simp] theorem named_empty : named [[]] = [] := rfl

theorem named_singleton {s : List Char} (h : isEmptyPiece s = false) :
    named [s] = [componentOf s] := by
  simp [named, h]

/-- A path from the root of the disk on. -/
theorem components_of_absolute {p : Path} {cs : List Char} (h : p.text.toList = '/' :: cs) :
    p.components = .root :: named (split cs) := by
  simp [components, isAbsolute, pieces, named, h]

theorem isAbsolute_iff {p : Path} : p.isAbsolute = true ↔ ∃ cs, p.text.toList = '/' :: cs := by
  rw [isAbsolute, beq_iff_eq, List.head?_eq_some_iff]

theorem endsWith_iff {text suffix : String} :
    text.endsWith suffix = true ↔ suffix.toList <:+ text.toList := by
  rw [← String.endsWith_toSlice, String.Slice.endsWith_string_iff, String.copy_toSlice]

/-- How a path from the root ends tells its last name. -/
theorem fileName?_endsWith {p : Path} (hp : p.isAbsolute = true) {suffix : String}
    (hs : '/' ∉ suffix.toList) (hl : 3 ≤ suffix.toList.length) (h : p.text.endsWith suffix = true) :
    ∃ name, p.fileName? = some name ∧ name.endsWith suffix = true := by
  obtain ⟨pre, hpre⟩ := endsWith_iff.1 h
  obtain ⟨cs, hcs⟩ := isAbsolute_iff.1 hp
  cases pre with
  | nil =>
    rw [List.nil_append, hcs] at hpre
    exact absurd (hpre ▸ List.mem_cons_self) hs
  | cons c pre =>
    obtain ⟨front, last, he⟩ := split_append hs pre
    obtain ⟨rfl, rfl⟩ : c = '/' ∧ pre ++ suffix.toList = cs := by
      rw [hcs] at hpre
      exact List.cons_eq_cons.1 hpre
    have hlong : 3 ≤ (last ++ suffix.toList).length := by
      rw [List.length_append]
      omega
    have hempty : isEmptyPiece (last ++ suffix.toList) = false := by
      match last ++ suffix.toList, hlong with
      | _ :: _ :: _ :: _, _ => simp [isEmptyPiece]
    have hname :
      componentOf (last ++ suffix.toList) = .name (String.ofList (last ++ suffix.toList)) := by
      match last ++ suffix.toList, hlong with
      | _ :: _ :: _ :: _, _ => simp [componentOf]
    refine ⟨String.ofList (last ++ suffix.toList), ?_, endsWith_iff.2 (by simp)⟩
    rw [fileName?, components_of_absolute hcs, he, named_append, named_singleton hempty, hname,
      ← List.cons_append, List.getLast?_concat]

/-- A text that names an entry of a folder. -/
def isName (name : String) : Bool :=
  !isEmptyPiece name.toList && name != ".." && !name.toList.contains '/'

theorem named_names {names : List String} (h : ∀ n ∈ names, isName n = true) :
    named (names.map String.toList) = names.map .name := by
  induction names with
  | nil => rfl
  | cons n names ih =>
    obtain ⟨hn, hns⟩ := List.forall_mem_cons.1 h
    simp only [isName, Bool.and_eq_true, Bool.not_eq_true', bne_iff_ne] at hn
    have hc : componentOf n.toList = .name n := by
      rw [componentOf, if_neg, String.ofList_toList]
      exact fun he => hn.1.2 (String.toList_injective (by simpa using he))
    rw [List.map_cons, ← List.singleton_append, named_append, ih hns, named_singleton hn.1.1, hc]
    rfl

theorem split_intercalate {names : List String} (hne : names ≠ [])
    (h : ∀ n ∈ names, isName n = true) :
    split ("/".intercalate names).toList = names.map String.toList := by
  rw [split_eq_splitOn, String.toList_intercalate]
  refine List.splitOn_intercalate _ (fun l hl => ?_) (by simpa using hne)
  obtain ⟨n, hn, rfl⟩ := List.mem_map.1 hl
  have hn := h n hn
  simp only [isName, Bool.and_eq_true, Bool.not_eq_true'] at hn
  simpa using hn.2

theorem split_append_slash (cs ds : List Char) :
    split (cs ++ '/' :: ds) = split cs ++ split ds := by
  simp only [split_eq_splitOn]
  exact List.splitOn_append_cons_self cs ds

/-- Behind a slash, or nothing, pieces begin afresh. -/
theorem named_split_append {cs : List Char} (h : cs = [] ∨ cs.getLast? = some '/')
    (ds : List Char) :
    named (split (cs ++ ds)) = named (split cs) ++ named (split ds) := by
  rcases h with rfl | h
  · rfl
  · obtain ⟨front, rfl⟩ := List.getLast?_eq_some_iff.1 h
    have hfront : split (front ++ ['/']) = split front ++ [[]] := split_append_slash front []
    rw [List.append_assoc, List.singleton_append, split_append_slash, hfront, named_append,
      named_append, named_empty, List.append_nil]

theorem isAbsolute_join {root : Path} (hr : root.isAbsolute = true) {text : String} :
    (root.join text).isAbsolute = true := by
  obtain ⟨cs, hcs⟩ := isAbsolute_iff.1 hr
  unfold join
  split_ifs with ht he
  · simpa [isAbsolute] using ht
  · rw [String.isEmpty_iff] at he
    simp [he] at hcs
  all_goals simp [isAbsolute, hcs]

/-- A relative text that is joined to a path from the root adds what its pieces name. -/
theorem components_join {root : Path} (hr : root.isAbsolute = true) {text : String}
    (ht : text.toList.head? ≠ some '/') :
    (root.join text).components = root.components ++ named (split text.toList) := by
  obtain ⟨cs, hcs⟩ := isAbsolute_iff.1 hr
  have hne : root.text.isEmpty = false := by
    rw [Bool.eq_false_iff, ne_eq, String.isEmpty_iff]
    intro he
    simp [he] at hcs
  rw [components_of_absolute hcs, join, if_neg (by simpa using ht), if_neg (by simp [hne])]
  by_cases hl : root.text.toList.getLast? = some '/'
  · have hlast : cs = [] ∨ cs.getLast? = some '/' := by
      cases cs with
      | nil => exact .inl rfl
      | cons c cs => exact .inr (by rwa [hcs, List.getLast?_cons_cons] at hl)
    have htext : (root.text ++ text).toList = '/' :: (cs ++ text.toList) := by simp [hcs]
    rw [if_pos (by simpa using hl), components_of_absolute htext, named_split_append hlast,
      List.cons_append]
  · have htext : (root.text ++ "/" ++ text).toList = '/' :: (cs ++ '/' :: text.toList) := by
      simp [hcs]
    rw [if_neg (by simpa using hl), components_of_absolute htext, split_append_slash, named_append,
      List.cons_append]

theorem head?_intercalate_ne {names : List String} (hne : names ≠ [])
    (h : ∀ n ∈ names, isName n = true) : ("/".intercalate names).toList.head? ≠ some '/' := by
  have hsplit := split_intercalate hne h
  intro hhead
  obtain ⟨ds, hds⟩ := List.head?_eq_some_iff.1 hhead
  obtain ⟨n, ns, rfl⟩ := List.exists_cons_of_ne_nil hne
  rw [hds, split, if_pos rfl, List.map_cons, List.cons_eq_cons] at hsplit
  simpa [isName, isEmptyPiece, ← hsplit.1] using h n List.mem_cons_self

/-- The names that lead to an entry are the last components of its path. -/
theorem components_join_names {root : Path} (hr : root.isAbsolute = true) {names : List String}
    (hne : names ≠ []) (h : ∀ n ∈ names, isName n = true) :
    (root.join ("/".intercalate names)).components = root.components ++ names.map .name := by
  rw [components_join hr (head?_intercalate_ne hne h), split_intercalate hne h, named_names h]

end QualityGate.Path
