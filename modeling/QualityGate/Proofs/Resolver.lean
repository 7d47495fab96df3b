import QualityGate.Proofs.Disk
import QualityGate.Resolver

/-!
Where the names of modules lead. A relative name leads where its steps lead from the folder of the
importing file; what is not a file there means the first file among those with an extension added,
with the extension of a script replaced, and with an index in a folder.
-/
namespace QualityGate

namespace Path

variable {names : List String} {name stem ext : String}

theorem splitExtension_point (hstem : stem ≠ "") (hext : '.' ∉ ext.toList) :
    splitExtension (stem ++ "." ++ ext) = (stem, some ext) := by
  have hback :
      (stem ++ "." ++ ext).toList.reverse = ext.toList.reverse ++ '.' :: stem.toList.reverse := by
    simp
  have htake : (ext.toList.reverse ++ '.' :: stem.toList.reverse).takeWhile (· != '.') =
      ext.toList.reverse := by
    rw [List.takeWhile_append_of_pos fun c hc => ?_]
    · simp
    · exact bne_iff_ne.2 fun he => hext (he ▸ List.mem_reverse.1 hc)
  have hdrop : (ext.toList.reverse ++ '.' :: stem.toList.reverse).drop ext.toList.reverse.length =
      '.' :: stem.toList.reverse := List.drop_left
  rw [splitExtension, hback, htake]
  simp only [hdrop]
  rw [if_neg (by simpa using hstem), List.reverse_reverse, List.reverse_reverse,
    String.ofList_toList, String.ofList_toList]

theorem eq_of_splitExtension (h : splitExtension name = (stem, some ext)) :
    name = stem ++ "." ++ ext ∧ stem ≠ "" := by
  have hback :=
    List.prefix_iff_eq_append.1 (List.takeWhile_prefix (· != '.') (l := name.toList.reverse))
  unfold splitExtension at h
  simp only at h
  split at h
  · next rest hdrop =>
    split_ifs at h with hrest
    · simp at h
    · obtain ⟨rfl, hext⟩ := Prod.mk.inj h
      obtain rfl := Option.some.inj hext
      rw [hdrop] at hback
      refine ⟨String.toList_injective (List.reverse_injective (hback.symm.trans ?_)), by
        simpa using hrest⟩
      simp
  · simp at h

/-- A name with something before and behind a point is a name. -/
theorem isName_point (hstem : stem ≠ "") (hslash : '/' ∉ stem.toList) (hext : ext ≠ "")
    (hpoint : '/' ∉ ext.toList) : isName (stem ++ "." ++ ext) = true := by
  obtain ⟨c, cs, hcs⟩ := List.exists_cons_of_ne_nil (mt String.toList_eq_nil_iff.1 hstem)
  obtain ⟨d, ds, hds⟩ := List.exists_cons_of_ne_nil (mt String.toList_eq_nil_iff.1 hext)
  have hlist : (stem ++ "." ++ ext).toList = c :: (cs ++ '.' :: d :: ds) := by simp [hcs, hds]
  refine isName_iff.2 ⟨?_, fun he => ?_, ?_⟩
  · rw [hlist]
    cases cs <;> simp [isEmptyPiece]
  · have hlong := congrArg (List.length ∘ String.toList) he
    simp [hcs, hds] at hlong
    omega
  · simpa using ⟨hslash, hpoint⟩

variable {new : String}

theorem withFileName_ofNames (h : ∀ n ∈ names ++ [name], isName n = true)
    (hnew : isName new = true) :
    (ofNames (names ++ [name])).withFileName new = ofNames (names ++ [new]) := by
  have hnames : ∀ n ∈ names ++ [new], isName n = true :=
    List.forall_mem_append.2 ⟨(List.forall_mem_append.1 h).1, by simpa using hnew⟩
  rw [withFileName, parent?_ofNames h]
  exact join_name hnames

theorem extension?_ofNames (h : ∀ n ∈ names ++ [name], isName n = true) :
    (ofNames (names ++ [name])).extension? = (splitExtension name).2 := by
  rw [extension?, fileName?_ofNames h, Option.bind_some]

theorem withExtension_ofNames (h : ∀ n ∈ names ++ [stem ++ "." ++ ext], isName n = true)
    (hstem : stem ≠ "") (hext : '.' ∉ ext.toList) (hnew : isName (stem ++ "." ++ new) = true) :
    (ofNames (names ++ [stem ++ "." ++ ext])).withExtension new =
      ofNames (names ++ [stem ++ "." ++ new]) := by
  rw [withExtension, fileName?_ofNames h]
  simp only [splitExtension_point hstem hext]
  exact withFileName_ofNames h hnew

end Path

namespace Resolver

open QualityGate.Path

def scripts : List String := ["js", "jsx", "mjs", "cjs"]

/-- The names of the typed files that the name of a script may mean. Other names mean none. -/
inductive TypedNames (name : String) : List String → Prop
  | script {stem ext : String} (hstem : stem ≠ "") (hext : ext ∈ scripts) (h : name = stem ++
    "." ++ ext) :
    TypedNames name (["ts", "tsx"].map fun new => stem ++ "." ++ new)
  | other (h : ∀ stem ≠ "", ∀ ext ∈ scripts, name ≠ stem ++ "." ++ ext) : TypedNames name []

/-- The files that may be meant where there is no file at the end of the names, by precedence: those
beside it with an extension added, its typed sources, and the index files below it if it is a
folder. -/
def meanings (disk : Disk) (folder : List String) (name : String) (typed : List String) :
    List Path :=
  (["ts", "tsx", "js", "jsx"].map fun ext => ofNames (folder ++ [name ++ "." ++ ext]))
    ++ typed.map (fun n => ofNames (folder ++ [n]))
    ++ (if disk.isFolder (ofNames (folder ++ [name])) then
        ["ts", "tsx", "js", "jsx"].map fun ext => ofNames (folder ++ [name, "index." ++ ext])
      else [])

/-- The name, a relative one, leads from the file to the end of `target`, step by step from the
folder of the file. -/
inductive Leads (f : Path) (specifier : String) (target : List String) : Prop
  | intro {folder : List String} {file : String} (along : f.Along (folder ++ [file]))
    (relative : specifier.toList.head? =
      some '.') (walk : Walk folder (split specifier.toList) target)

variable {disk : Disk} {folder typed target : List String} {name stem ext specifier file : String}
  {r : Resolver} {f g p : Path}

theorem exists_typedNames (name : String) : ∃ typed, TypedNames name typed := by
  by_cases h : ∀ stem ≠ "", ∀ ext ∈ scripts, name ≠ stem ++ "." ++ ext
  · exact ⟨[], .other h⟩
  · push Not at h
    obtain ⟨stem, hstem, ext, hext, hname⟩ := h
    exact ⟨_, .script hstem hext hname⟩

/-- The typed files that a path to a script may mean. -/
def typedSources (p : Path) : List Path :=
  match p.extension? with
  | some "js" | some "jsx" | some "mjs" | some "cjs" =>
    [p.withExtension "ts", p.withExtension "tsx"]
  | _ => []

theorem typedSources_of_mem_scripts (hext : ext ∈ scripts) (h : p.extension? = some ext) :
    typedSources p = ["ts", "tsx"].map p.withExtension := by
  simp only [scripts, List.mem_cons, List.not_mem_nil, or_false] at hext
  rcases hext with rfl | rfl | rfl | rfl <;> simp [typedSources, h]

theorem typedSources_eq_nil (h : ∀ ext ∈ scripts, p.extension? ≠ some ext) :
    typedSources p = [] := by
  unfold typedSources
  split
  all_goals first
    | rfl
    | next hext => exact absurd hext (h _ (by decide))

theorem exists_of_mem_typedSources (h : g ∈ typedSources p) : ∃ new, g = p.withExtension new := by
  by_cases hscript : ∃ ext ∈ scripts, p.extension? = some ext
  · obtain ⟨ext, hext, he⟩ := hscript
    rw [typedSources_of_mem_scripts hext he] at h
    obtain ⟨new, -, rfl⟩ := List.mem_map.1 h
    exact ⟨new, rfl⟩
  · rw [typedSources_eq_nil fun ext hext he => hscript ⟨ext, hext, he⟩] at h
    simp at h

theorem point_not_mem_of_mem_scripts (h : ext ∈ scripts) : '.' ∉ ext.toList := by
  have hall : ∀ e ∈ scripts, '.' ∉ e.toList := by decide
  exact hall ext h

theorem isName_of_mem_extensions (hstem : stem ≠ "") (hslash : '/' ∉ stem.toList)
    (hext : ext ∈ extensions) :
    isName (stem ++ "." ++ ext) = true := by
  have hall : ∀ e ∈ extensions, e ≠ "" ∧ '/' ∉ e.toList := by decide
  exact isName_point hstem hslash (hall ext hext).1 (hall ext hext).2

theorem typedSources_ofNames (h : ∀ n ∈ folder ++ [name], isName n = true)
    (ht : TypedNames name typed) :
    typedSources (ofNames (folder ++ [name])) = typed.map fun n => ofNames (folder ++ [n]) := by
  cases ht with
  | @script stem ext hstem hext hname =>
    subst hname
    have hpoint := point_not_mem_of_mem_scripts hext
    have hslash : '/' ∉ stem.toList := fun hs =>
      (isName_iff.1 (h (stem ++ "." ++ ext) (by simp))).2.2 (by simp [hs])
    rw [typedSources_of_mem_scripts hext (by rw [extension?_ofNames h,
      splitExtension_point hstem hpoint]), List.map_map]
    refine List.map_congr_left fun new hnew => withExtension_ofNames h hstem hpoint ?_
    have htyped : ["ts", "tsx"] ⊆ extensions := by decide
    exact isName_of_mem_extensions hstem hslash (htyped hnew)
  | other hother =>
    refine typedSources_eq_nil fun ext hext he => ?_
    obtain ⟨hname, hstem⟩ := eq_of_splitExtension (Prod.ext rfl (extension?_ofNames h ▸ he))
    exact hother _ hstem ext hext hname

theorem alternatives_eq (p : Path) (name : String) : alternatives disk p name =
    (extensions.map fun ext => p.withFileName (name ++ "." ++ ext)) ++ typedSources p
      ++ (if disk.isFolder p then extensions.map fun ext => p.join ("index." ++ ext) else []) := rfl

/-- What a path may mean are the files beside it and below it. -/
theorem alternatives_ofNames (h : ∀ n ∈ folder ++ [name], isName n = true)
    (ht : TypedNames name typed) :
    alternatives disk (ofNames (folder ++ [name])) name = meanings disk folder name typed := by
  obtain ⟨hempty, -, hslash⟩ := isName_iff.1 (h name (by simp))
  have hname : name ≠ "" := fun he => by simp [he, isEmptyPiece] at hempty
  have hindex : ∀ ext ∈ extensions, isName ("index." ++ ext) = true := by decide
  have hadded :
      (extensions.map fun ext => (ofNames (folder ++ [name])).withFileName (name ++ "." ++ ext)) =
      extensions.map fun ext => ofNames (folder ++ [name ++ "." ++ ext]) :=
    List.map_congr_left fun ext he =>
      withFileName_ofNames h (isName_of_mem_extensions hname hslash he)
  have hbelow : (extensions.map fun ext => (ofNames (folder ++ [name])).join ("index." ++ ext)) =
      extensions.map fun ext => ofNames (folder ++ [name, "index." ++ ext]) := by
    refine List.map_congr_left fun ext he => ?_
    rw [join_name (List.forall_mem_append.2 ⟨h, by simpa using hindex ext he⟩), List.append_assoc]
    rfl
  rw [alternatives_eq, hadded, hbelow, typedSources_ofNames h ht]
  rfl

theorem file?_ofNames (h : ∀ n ∈ folder ++ [name], isName n = true) (ht : TypedNames name typed)
    (hno : disk.isFile (ofNames (folder ++ [name])) = false) :
    file? disk (ofNames (folder ++ [name])) =
      (meanings disk folder name typed).find? disk.isFile := by
  rw [file?, if_neg (by simp [hno]), fileName?_ofNames h, ← alternatives_ofNames h ht]

theorem isFile_of_file? (h : file? disk p = some g) : disk.isFile g = true := by
  unfold file? at h
  split_ifs at h with hp
  · exact Option.some.inj h ▸ hp
  · split at h
    · simp at h
    · exact List.find?_some h

/-- A relative name that does not climb above the top leads somewhere. -/
theorem exists_leads (hf : f.Along (folder ++ [file])) (hspec : specifier.toList.head? = some '.')
    (hclimbs : ¬ Climbs folder (split specifier.toList)) : ∃ target, Leads f specifier target := by
  have hwalk := exists_walk_or_climbs folder fun s (hs : s ∈ split specifier.toList) =>
    slash_not_mem_of_mem_split hs
  obtain ⟨target, hwalk⟩ := hwalk.resolve_right hclimbs
  exact ⟨target, .intro hf hspec hwalk⟩

variable (h : Leads f specifier target)
include h

/-- A relative name stands for the path to which its steps lead. -/
theorem Leads.candidate? (r : Resolver) : r.candidate? specifier f = some (ofNames target) := by
  obtain ⟨hf, hspec, hwalk⟩ := h
  obtain ⟨dir, hdir, hfolder⟩ := hf.parent?
  rw [Resolver.candidate?, if_pos (by simp [hspec]), hdir, Option.getD_some,
    hfolder.normalize_join (by simp [hspec]) hwalk]

theorem Leads.isName : ∀ n ∈ target, isName n = true := by
  obtain ⟨hf, -, hwalk⟩ := h
  exact hwalk.isName (List.forall_mem_append.1 hf.isName).1

/-- A relative name leads to the file at the end of its steps. -/
theorem Leads.resolve?_of_holdsFile (r : Resolver) (hne : target ≠ [])
    (hfile : disk.HoldsFile target) :
    r.resolve? disk specifier f = some (ofNames target) := by
  have hfound := (Disk.isFile_ofNames_iff hne h.isName).2 hfile
  rw [resolve?, h.candidate?, Option.bind_some, file?, if_pos hfound]

/-- Without a file there, it leads to the first file that may be meant. -/
theorem Leads.resolve?_of_no_file (r : Resolver) (htarget : target = folder ++ [name])
    (hno : disk.isFile (ofNames target) = false) (ht : TypedNames name typed) :
    r.resolve? disk specifier f = (meanings disk folder name typed).find? disk.isFile := by
  subst htarget
  rw [resolve?, h.candidate?, Option.bind_some, file?_ofNames h.isName ht hno]

omit h

theorem isFile_of_resolve? (h : r.resolve? disk specifier f = some g) : disk.isFile g = true := by
  obtain ⟨p, -, hp⟩ := Option.bind_eq_some_iff.1 h
  exact isFile_of_file? hp

def HasAbsoluteAliases (r : Resolver) : Prop := ∀ a ∈ r.aliases, a.base.isAbsolute = true

theorem isAbsolute_of_mem_alternatives (h : p.isAbsolute = true)
    (hg : g ∈ alternatives disk p name) :
    g.isAbsolute = true := by
  rw [alternatives_eq, List.mem_append, List.mem_append] at hg
  rcases hg with (hg | hg) | hg
  · obtain ⟨ext, -, rfl⟩ := List.mem_map.1 hg
    exact isAbsolute_withFileName h
  · obtain ⟨new, rfl⟩ := exists_of_mem_typedSources hg
    exact isAbsolute_withExtension h
  · split_ifs at hg
    · obtain ⟨ext, -, rfl⟩ := List.mem_map.1 hg
      exact isAbsolute_join h
    · simp at hg

theorem isAbsolute_of_file? (h : p.isAbsolute = true) (hg : file? disk p = some g) :
    g.isAbsolute = true := by
  unfold file? at hg
  split_ifs at hg
  · exact Option.some.inj hg ▸ h
  · split at hg
    · simp at hg
    · exact isAbsolute_of_mem_alternatives h (List.mem_of_find?_eq_some hg)

theorem isAbsolute_of_candidate? (hr : r.HasAbsoluteAliases) (hf : f.Along (folder ++ [file]))
    (hp : r.candidate? specifier f = some p) : p.isAbsolute = true := by
  unfold candidate? at hp
  split_ifs at hp
  · obtain ⟨dir, hdir, hfolder⟩ := hf.parent?
    rw [hdir] at hp
    exact Option.some.inj hp ▸ isAbsolute_normalize (isAbsolute_join hfolder.isAbsolute)
  · obtain ⟨a, ha, hthrough⟩ := List.exists_of_findSome?_eq_some hp
    unfold through? at hthrough
    split_ifs at hthrough
    · exact Option.some.inj hthrough ▸ hr a ha
    · exact Option.some.inj hthrough ▸ isAbsolute_normalize (isAbsolute_join (hr a ha))

/-- Files are found by absolute paths only. -/
theorem isAbsolute_of_resolve? (hr : r.HasAbsoluteAliases) (hf : f.Along (folder ++ [file]))
    (h : r.resolve? disk specifier f = some g) : g.isAbsolute = true := by
  obtain ⟨p, hp, hg⟩ := Option.bind_eq_some_iff.1 h
  exact isAbsolute_of_file? (isAbsolute_of_candidate? hr hf hp) hg

end Resolver

end QualityGate
