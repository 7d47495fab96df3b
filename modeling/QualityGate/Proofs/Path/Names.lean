import QualityGate.Proofs.Path.Order
import QualityGate.Proofs.Path.Pieces

/-!
Absolute paths by the names along which they lead from the top of a disk. To join such paths, to cut
them short and to compare them is to do so with the lists of names.
-/
namespace QualityGate.Path

/-- The absolute path along names. -/
def ofNames (names : List String) : Path := ⟨"/" ++ "/".intercalate names⟩

variable {names more root : List String} {name : String}

@[simp] theorem isAbsolute_ofNames (names : List String) : (ofNames names).isAbsolute = true := by
  simp [isAbsolute, ofNames]

theorem slash_intercalate {ss : List (List Char)} (hne : ss ≠ []) :
    '/' :: ['/'].intercalate ss = ss.flatMap ('/' :: ·) := by
  induction ss with
  | nil => exact absurd rfl hne
  | cons s ss ih =>
    cases ss with
    | nil => simp
    | cons t ts => simp [List.intercalate_cons_of_ne_nil, ← ih (List.cons_ne_nil t ts)]

theorem toList_ofNames (hne : names ≠ []) :
    (ofNames names).text.toList = names.flatMap fun n => '/' :: n.toList := by
  have hslash : '/' :: ['/'].intercalate (names.map String.toList) =
      (names.map String.toList).flatMap ('/' :: ·) := slash_intercalate (by simpa using hne)
  simpa [ofNames, String.toList_intercalate, List.flatMap_map] using hslash

theorem pieces_ofNames (hne : names ≠ []) (h : ∀ n ∈ names, isName n = true) :
    (ofNames names).pieces = names.map String.toList := by
  rw [← split_intercalate hne h]
  simp [pieces, ofNames]

theorem components_ofNames (h : ∀ n ∈ names, isName n = true) :
    (ofNames names).components = .root :: names.map .name := by
  cases names with
  | nil => rfl
  | cons n ns =>
    have hpieces := pieces_ofNames (List.cons_ne_nil n ns) h
    rw [← named_names h, ← hpieces]
    simp [components, named]

theorem map_name_injective : Function.Injective (List.map Component.name) :=
  List.map_injective_iff.2 fun _ _ h => by injection h

theorem fileName?_ofNames (h : ∀ n ∈ names ++ [name], isName n = true) :
    (ofNames (names ++ [name])).fileName? = some name := by
  rw [fileName?, components_ofNames h, List.map_append, List.map_singleton, ← List.cons_append,
    List.getLast?_concat]

theorem same_ofNames_iff (h : ∀ n ∈ names, isName n = true) (k : ∀ n ∈ more, isName n = true) :
    (ofNames names).same (ofNames more) = true ↔ names = more := by
  rw [same_iff, components_ofNames h, components_ofNames k, List.cons_eq_cons,
    map_name_injective.eq_iff]
  exact and_iff_right rfl

theorem ofNames_inj (h : ∀ n ∈ names, isName n = true) (k : ∀ n ∈ more, isName n = true)
    (he : ofNames names = ofNames more) : names = more :=
  (same_ofNames_iff h k).1 (he ▸ same_iff.2 rfl)

theorem isSome_dropPrefix?_iff {as bs : List Component} :
    (dropPrefix? as bs).isSome = true ↔ as <+: bs := by
  induction as generalizing bs with
  | nil => simp [dropPrefix?]
  | cons a as ih =>
    cases bs with
    | nil => simp [dropPrefix?]
    | cons b bs =>
      rw [dropPrefix?, List.cons_prefix_cons]
      split_ifs with h
      · rw [ih, and_iff_right h]
      · simp [h]

theorem startsWith_ofNames_iff (h : ∀ n ∈ names, isName n = true)
    (hr : ∀ n ∈ root, isName n = true) :
    (ofNames names).startsWith (ofNames root) = true ↔ root <+: names := by
  rw [startsWith, isSome_dropPrefix?_iff, components_ofNames h, components_ofNames hr,
    List.cons_prefix_cons, List.prefix_map_iff_of_injective fun _ _ h => by injection h]
  exact and_iff_right rfl

theorem isName_iff : isName name = true ↔
    isEmptyPiece name.toList = false ∧ name ≠ ".." ∧ '/' ∉ name.toList := by
  simp [isName, and_assoc]

theorem toList_ne_nil (h : isName name = true) : name.toList ≠ [] := by
  intro he
  simp [isName, isEmptyPiece, he] at h

/-- A path along names ends in a slash only at the top of the disk. -/
theorem getLast?_ofNames (hne : names ≠ []) (h : ∀ n ∈ names, isName n = true) :
    (ofNames names).text.toList.getLast? ≠ some '/' := by
  obtain ⟨front, n, rfl⟩ := (List.eq_nil_or_concat' names).resolve_left hne
  have hn := h n (by simp)
  rw [toList_ofNames hne, List.flatMap_append, List.flatMap_singleton, List.getLast?_append_cons,
    List.getLast?_cons_of_ne_nil (toList_ne_nil hn)]
  exact fun hl => (isName_iff.1 hn).2.2 (List.mem_of_getLast? hl)

/-- What lies below a folder is joined to it name by name. -/
theorem join_ofNames (hne : more ≠ []) (h : ∀ n ∈ names ++ more, isName n = true) :
    (ofNames names).join ("/".intercalate more) = ofNames (names ++ more) := by
  obtain ⟨hnames, hmore⟩ := List.forall_mem_append.1 h
  have hempty : (ofNames names).text.isEmpty = false := by
    rw [Bool.eq_false_iff, ne_eq, String.isEmpty_iff]
    exact fun he => by simpa [ofNames] using congrArg String.toList he
  rw [join, if_neg (by simpa using head?_intercalate_ne hne hmore), if_neg (by simp [hempty])]
  by_cases hn : names = []
  · subst hn
    rfl
  · rw [if_neg (by simpa using getLast?_ofNames hn hnames)]
    have htext :
        (ofNames names).text ++ "/" ++ "/".intercalate more = (ofNames (names ++ more)).text := by
      apply String.toList_injective
      rw [toList_ofNames (List.append_ne_nil_of_left_ne_nil hn more), List.flatMap_append,
        ← toList_ofNames hn, ← toList_ofNames hne]
      simp [ofNames]
    rw [htext]

theorem join_name (h : ∀ n ∈ names ++ [name], isName n = true) :
    (ofNames names).join name = ofNames (names ++ [name]) := by
  have hjoin := join_ofNames (List.cons_ne_nil name []) h
  rwa [show "/".intercalate [name] = name from rfl] at hjoin

theorem trimEnd_of_names {ss : List (List Char)} (h : ∀ s ∈ ss, isEmptyPiece s = false) :
    trimEnd true ss = ss := by
  have hkept : (ss.reverse.dropWhile isEmptyPiece).reverse = ss := by
    cases hs : ss.reverse with
    | nil => simpa using hs.symm
    | cons s rest =>
      have hlast : isEmptyPiece s = false := h s (List.mem_reverse.1 (hs ▸ List.mem_cons_self))
      rw [List.dropWhile_cons_of_neg (by simp [hlast]), ← hs, List.reverse_reverse]
  simp [trimEnd, hkept]

/-- The folder that holds the last name. -/
theorem parent?_ofNames (h : ∀ n ∈ names ++ [name], isName n = true) :
    (ofNames (names ++ [name])).parent? = some (ofNames names) := by
  have hpieces : ∀ s ∈ (names ++ [name]).map String.toList, isEmptyPiece s = false :=
    List.forall_mem_map.2 fun n hn => (isName_iff.1 (h n hn)).1
  have hnames : ∀ s ∈ names.map String.toList, isEmptyPiece s = false := fun s hs =>
    hpieces s (List.map_append ▸ List.mem_append_left _ hs)
  have hrest : joinPieces (names.map String.toList) = ("/".intercalate names).toList := by
    rw [String.toList_intercalate]
    rfl
  rw [parent?, isAbsolute_ofNames, pieces_ofNames (by simp) h, trimEnd_of_names hpieces]
  split
  · next hnil => simp at hnil
  · rw [List.map_append, List.map_singleton, List.dropLast_concat, trimEnd_of_names hnames, hrest]
    simp only [if_true, String.ofList_cons, String.ofList_toList]
    rfl

end QualityGate.Path
