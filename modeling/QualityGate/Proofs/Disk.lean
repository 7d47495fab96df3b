import QualityGate.Disk
import QualityGate.Proofs.Path.Walk

/-!
Trees as a disk holds them: the entries of a folder have names, and each a different one. What is
found in such a tree is such a tree, and so is what comes of putting one into it; the absolute path
of a folder leads to this folder, and the absolute path along names leads to a file where there is
one. In whatever spelling, a path leads nowhere but to the end of its names.
-/
namespace QualityGate

namespace Entry

mutual
/-- Whether all entries below have names, and different ones in one folder. -/
def isTidy : Entry → Bool
  | file _ => true
  | folder entries => areTidy entries

def areTidy : List (String × Entry) → Bool
  | [] => true
  | (name, entry) :: rest =>
    Path.isName name && !(rest.map (·.1)).contains name && isTidy entry && areTidy rest
end

variable {entries rest : List (String × Entry)} {name : String} {entry new : Entry}

theorem areTidy_cons : areTidy ((name, entry) :: rest) = true ↔
    Path.isName name = true ∧ name ∉ rest.map (·.1) ∧ entry.isTidy = true ∧
      areTidy rest = true := by
  simp [areTidy, and_assoc]

theorem areTidy_entries (h : entry.isTidy = true) : areTidy entry.entries = true := by
  cases entry with
  | file content => rfl
  | folder entries => exact h

theorem isTidy_of_mem (h : areTidy entries = true) {e : String × Entry} (he : e ∈ entries) :
    e.2.isTidy = true := by
  induction entries with
  | nil => simp at he
  | cons first rest ih =>
    obtain ⟨-, -, hfirst, hrest⟩ := areTidy_cons.1 h
    rcases List.mem_cons.1 he with rfl | he
    · exact hfirst
    · exact ih hrest he

theorem isName_of_mem (h : areTidy entries = true) {e : String × Entry} (he : e ∈ entries) :
    Path.isName e.1 = true := by
  induction entries with
  | nil => simp at he
  | cons first rest ih =>
    obtain ⟨hfirst, -, -, hrest⟩ := areTidy_cons.1 h
    rcases List.mem_cons.1 he with rfl | he
    · exact hfirst
    · exact ih hrest he

theorem child?_cons_self : (folder ((name, entry) :: rest)).child? name = some entry := by
  simp [child?, Entry.entries]

theorem child?_cons_of_ne {e : String × Entry} (h : e.1 ≠ name) :
    (folder (e :: rest)).child? name = (folder rest).child? name := by
  simp [child?, Entry.entries, h]

theorem isTidy_child? (h : entry.isTidy = true) (hc : entry.child? name = some new) :
    new.isTidy = true := by
  obtain ⟨e, he, rfl⟩ := Option.map_eq_some_iff.1 hc
  exact isTidy_of_mem (areTidy_entries h) (List.mem_of_find?_eq_some he)

theorem isTidy_at? {names : List String} (h : entry.isTidy = true)
    (ha : entry.at? names = some new) :
    new.isTidy = true := by
  induction names generalizing entry with
  | nil =>
    obtain rfl : entry = new := by simpa [at?] using ha
    exact h
  | cons name names ih =>
    obtain ⟨child, hc, ha⟩ := Option.bind_eq_some_iff.1 ha
    exact ih (isTidy_child? h hc) ha

/-- Only names lead anywhere in a tree as a disk holds it. -/
theorem isName_of_at? {names : List String} (h : entry.isTidy = true)
    (ha : entry.at? names = some new) : ∀ n ∈ names, Path.isName n = true := by
  induction names generalizing entry with
  | nil => exact List.forall_mem_nil _
  | cons name names ih =>
    obtain ⟨child, hc, ha⟩ := Option.bind_eq_some_iff.1 ha
    refine List.forall_mem_cons.2 ⟨?_, ih (isTidy_child? h hc) ha⟩
    obtain ⟨e, he, -⟩ := Option.map_eq_some_iff.1 hc
    obtain rfl : e.1 = name := by simpa using List.find?_some he
    exact isName_of_mem (areTidy_entries h) (List.mem_of_find?_eq_some he)

theorem at?_append (names more : List String) (entry : Entry) :
    entry.at? (names ++ more) = (entry.at? names).bind (at? more) := by
  induction names generalizing entry with
  | nil => rfl
  | cons name names ih =>
    rw [List.cons_append, at?, at?, Option.bind_assoc]
    exact Option.bind_congr fun child _ => ih child

theorem names_set : ∀ n ∈ (set name new entries).map (·.1), n = name ∨ n ∈ entries.map (·.1) := by
  induction entries with
  | nil => simp [set]
  | cons e rest ih =>
    rw [set]
    split_ifs
    · simp +contextual
    · rintro n hn
      rcases List.mem_cons.1 hn with rfl | hn
      · simp
      · exact (ih n hn).imp_right (List.mem_cons_of_mem _)

theorem areTidy_set (hn : Path.isName name = true) (hnew : new.isTidy = true)
    (h : areTidy entries = true) :
    areTidy (set name new entries) = true := by
  induction entries with
  | nil => exact areTidy_cons.2 ⟨hn, by simp, hnew, rfl⟩
  | cons e rest ih =>
    obtain ⟨he, hfresh, htidy, hrest⟩ := areTidy_cons.1 h
    rw [set]
    split_ifs with heq
    · exact areTidy_cons.2 ⟨he, hfresh, hnew, hrest⟩
    · refine areTidy_cons.2 ⟨he, fun hm => ?_, htidy, ih hrest⟩
      exact (names_set _ hm).elim heq hfresh

/-- What is put under names leaves the tree as a disk holds it. -/
theorem isTidy_put {names : List String} {old : Entry} (hnames : ∀ n ∈ names, Path.isName n = true)
    (hnew : new.isTidy = true) (hold : old.isTidy = true) : (put new names old).isTidy = true := by
  induction names generalizing old with
  | nil =>
    unfold put
    split
    · exact hold
    · exact hnew
  | cons name names ih =>
    obtain ⟨hn, hns⟩ := List.forall_mem_cons.1 hnames
    refine areTidy_set hn (ih hns ?_) (areTidy_entries hold)
    cases hc : old.child? name with
    | none => rfl
    | some child => exact isTidy_child? hold hc

end Entry

namespace Disk

variable {disk : Disk} {p : Path} {entry : Entry} {names more : List String}

/-- The entries that are found make a disk, if names lead to them and they are tidy themselves. -/
theorem isTidy_ofEntries {here : List String} {found : List (List String × Entry)}
    (hhere : ∀ n ∈ here, Path.isName n = true)
    (hfound : ∀ e ∈ found, (∀ n ∈ e.1, Path.isName n = true) ∧ e.2.isTidy = true) :
    (ofEntries here found).top.isTidy = true := by
  have hbase : (Entry.put (.folder []) here (.folder [])).isTidy = true :=
    Entry.isTidy_put hhere rfl rfl
  refine List.foldlRecOn (motive := fun top : Entry => top.isTidy = true) found _ hbase
    fun top htop e he => ?_
  obtain ⟨hnames, htidy⟩ := hfound e he
  exact Entry.isTidy_put hnames htidy htop

theorem isTidy_entry? (h : disk.top.isTidy = true) (he : disk.entry? p = some entry) :
    entry.isTidy = true := by
  unfold entry? at he
  split at he
  · exact Entry.isTidy_at? h he
  · simp at he

theorem step_name {name : String} (hname : Path.isName name = true)
    (h : disk.top.at? (names ++ [name]) = some entry) :
    disk.step names name.toList = .ok (names ++ [name]) := by
  simp only [Path.isName, Bool.and_eq_true, Bool.not_eq_true', bne_iff_ne] at hname
  have hup : (name.toList == ['.', '.']) = false :=
    beq_eq_false_iff_ne.2 fun he => hname.1.2 (String.toList_injective (by simpa using he))
  rw [Entry.at?_append] at h
  obtain ⟨folder, hfolder, h⟩ := Option.bind_eq_some_iff.1 h
  obtain ⟨child, hchild, -⟩ := Option.bind_eq_some_iff.1 h
  obtain ⟨e, he, -⟩ := Option.map_eq_some_iff.1 hchild
  cases folder with
  | file content => simp [Entry.entries] at he
  | folder entries =>
    have hany : entries.any (·.1 == name) = true :=
      List.any_eq_true.2 ⟨e, List.mem_of_find?_eq_some he, by simpa using List.find?_some he⟩
    simp only [step, hfolder, hname.1.1, hup, String.ofList_toList, hany, Bool.false_eq_true,
      if_false, if_true]

/-- Names that lead to an entry are followed one after the other. -/
theorem foldlM_step (hmore : ∀ n ∈ more, Path.isName n = true)
    (h : disk.top.at? (names ++ more) = some entry) :
    (more.map String.toList).foldlM disk.step names = .ok (names ++ more) := by
  induction more generalizing names with
  | nil => rw [List.append_nil]; rfl
  | cons name more ih =>
    obtain ⟨hname, hmore⟩ := List.forall_mem_cons.1 hmore
    rw [List.append_cons] at h ⊢
    obtain ⟨child, hchild, -⟩ := Option.bind_eq_some_iff.1 (Entry.at?_append .. ▸ h)
    rw [List.map_cons, List.foldlM_cons, step_name hname hchild]
    exact ih hmore h

/-- An absolute path is followed from the top of the disk. -/
theorem locate_of_isAbsolute (hp : p.isAbsolute = true) :
    disk.locate p = p.pieces.foldlM disk.step [] := by
  obtain ⟨cs, hcs⟩ := Path.isAbsolute_iff.1 hp
  have hne : p.text.isEmpty = false := by
    rw [Bool.eq_false_iff, ne_eq, String.isEmpty_iff]
    exact fun he => by simp [he] at hcs
  simp only [locate, hne, hp, Bool.false_eq_true, if_false, if_true]

/-- The absolute path that is put together from the names of a folder leads to this folder. -/
theorem locate_names (hnames : ∀ n ∈ names, Path.isName n = true)
    (h : disk.top.at? names = some entry) (hfolder : entry.isFolder = true) :
    disk.locate (.ofNames names) = .ok names := by
  rw [locate_of_isAbsolute (Path.isAbsolute_ofNames names)]
  cases names with
  | nil =>
    have hstep : disk.step [] [] = .ok [] := by
      cases entry with
      | file content => simp [Entry.isFolder, Entry.isFile] at hfolder
      | folder entries => simp [step, h, Path.isEmptyPiece]
    have hpieces : (Path.ofNames []).pieces = [[]] := rfl
    rw [hpieces, List.foldlM_cons, hstep]
    rfl
  | cons name names =>
    rw [Path.pieces_ofNames (List.cons_ne_nil _ _) hnames]
    exact foldlM_step hnames h

/-- The absolute path of a folder leads to this folder. -/
theorem isFolder_canonical? (tidy : disk.top.isTidy = true) (hp : disk.isFolder p = true) :
    ∃ root, disk.canonical? p = some root ∧ disk.isFolder root = true := by
  unfold isFolder entry? at hp
  split at hp
  · next names hnames =>
    obtain ⟨entry, hentry, hfolder⟩ := Option.map_eq_some_iff.1 (beq_iff_eq.1 hp)
    refine ⟨.ofNames names, by rw [canonical?, hnames]; rfl, ?_⟩
    rw [isFolder, entry?, locate_names (Entry.isName_of_at? tidy hentry) hentry hfolder]
    simp only [hentry, Option.map_some, hfolder]
    rfl
  · simp at hp

def HoldsFile (disk : Disk) (names : List String) : Prop :=
  ∃ content, disk.top.at? names = some (.file content)

theorem eq_of_step {name : String} {found : List String} (hname : Path.isName name = true)
    (h : disk.step names name.toList = .ok found) : found = names ++ [name] := by
  obtain ⟨hpiece, hup, -⟩ := Path.isName_iff.1 hname
  have hdots : (name.toList == ['.', '.']) = false :=
    beq_eq_false_iff_ne.2 fun he => hup (String.toList_injective (by simpa using he))
  unfold step at h
  split at h
  · simp at h
  · simp at h
  · rw [hpiece, hdots, String.ofList_toList, if_neg Bool.false_ne_true,
      if_neg Bool.false_ne_true] at h
    split_ifs at h
    exact (Except.ok.inj h).symm

theorem exists_at?_dropLast (h : disk.top.at? names = some entry) :
    ∃ above, disk.top.at? names.dropLast = some above := by
  rcases List.eq_nil_or_concat' names with rfl | ⟨front, name, rfl⟩
  · exact ⟨entry, h⟩
  · rw [Entry.at?_append] at h
    obtain ⟨above, habove, -⟩ := Option.bind_eq_some_iff.1 h
    exact ⟨above, by rwa [List.dropLast_concat]⟩

theorem exists_at?_of_step {piece : List Char} {found : List String}
    (h : disk.step names piece = .ok found) : ∃ entry, disk.top.at? found = some entry := by
  unfold step at h
  split at h
  · simp at h
  · simp at h
  · next entries hentries =>
    split_ifs at h with hempty hup hany
    · exact ⟨_, Except.ok.inj h ▸ hentries⟩
    · exact Except.ok.inj h ▸ exists_at?_dropLast hentries
    · obtain ⟨child, hchild⟩ :
          ∃ child, (Entry.folder entries).child? (String.ofList piece) = some child := by
        rw [← Option.isSome_iff_exists, Entry.child?, Option.isSome_map]
        simpa [Entry.entries, List.find?_isSome] using hany
      refine ⟨child, Except.ok.inj h ▸ ?_⟩
      rw [Entry.at?_append, hentries, Option.bind_some, Entry.at?, hchild]
      rfl

/-- What a path leads to is there. -/
theorem exists_at?_of_locate (h : disk.locate p = .ok names) :
    ∃ entry, disk.top.at? names = some entry := by
  obtain ⟨start, hsteps⟩ : ∃ start, p.pieces.foldlM disk.step start = .ok names := by
    unfold locate at h
    split_ifs at h
    · exact ⟨[], h⟩
    · exact ⟨disk.here, h⟩
  obtain ⟨front, last, hlast⟩ := (List.eq_nil_or_concat' p.pieces).resolve_left p.pieces_ne_nil
  rw [hlast, List.foldlM_append] at hsteps
  cases hfront : front.foldlM disk.step start with
  | error failure =>
    rw [hfront] at hsteps
    cases hsteps
  | ok above =>
    rw [hfront] at hsteps
    cases hstep : disk.step above last with
    | error failure => simp [bind, Except.bind, List.foldlM, hstep] at hsteps
    | ok found =>
      obtain rfl : found = names := by
        simpa [bind, Except.bind, List.foldlM, hstep, pure, Except.pure] using hsteps
      exact exists_at?_of_step hstep

theorem eq_of_step_of_isEmptyPiece {piece : List Char} {found : List String}
    (hpiece : Path.isEmptyPiece piece = true) (h : disk.step names piece = .ok found) :
    found = names := by
  unfold step at h
  split at h
  · simp at h
  · simp at h
  · rw [hpiece, if_pos rfl] at h
    exact (Except.ok.inj h).symm

/-- Only what the pieces name counts for where they lead. -/
theorem eq_of_foldlM_step_named {pieces : List (List Char)} {found : List String}
    (hmore : ∀ n ∈ more, Path.isName n = true) (hpieces : Path.named pieces = more.map .name)
    (h : pieces.foldlM disk.step names = .ok found) : found = names ++ more := by
  induction pieces generalizing names more with
  | nil =>
    obtain rfl : more = [] := by simpa [Path.named] using hpieces
    rw [List.append_nil]
    exact (Except.ok.inj h).symm
  | cons piece pieces ih =>
    rw [List.foldlM_cons] at h
    cases hstep : disk.step names piece with
    | error failure =>
      rw [hstep] at h
      cases h
    | ok next =>
      rw [hstep] at h
      cases hpiece : Path.isEmptyPiece piece with
      | true =>
        obtain rfl := eq_of_step_of_isEmptyPiece hpiece hstep
        exact ih hmore (Path.named_cons_of_isEmptyPiece hpiece ▸ hpieces) h
      | false =>
        rw [← List.singleton_append, Path.named_append, Path.named_singleton hpiece] at hpieces
        obtain ⟨name, more, rfl, hname, hrest⟩ := List.map_eq_cons_iff.1 hpieces.symm
        obtain rfl : piece = name.toList := by
          rw [Path.componentOf] at hname
          split_ifs at hname
          rw [Component.name.inj hname, String.toList_ofList]
        obtain ⟨hn, hmore⟩ := List.forall_mem_cons.1 hmore
        obtain rfl := eq_of_step hn hstep
        rw [ih hmore hrest.symm h, List.append_assoc, List.singleton_append]

/-- A path leads to the end of its names, if anywhere. -/
theorem eq_of_locate {found : List String} (hp : p.Along names) (h : disk.locate p = .ok found) :
    found = names := by
  have habsolute := hp.isAbsolute
  have hnamed : Path.named p.pieces = names.map .name := by
    rw [Path.Along, Path.components_of_isAbsolute habsolute, List.cons_eq_cons] at hp
    exact hp.2
  rw [locate_of_isAbsolute habsolute] at h
  exact eq_of_foldlM_step_named hp.isName hnamed h

theorem isFile_iff : disk.isFile p = true ↔
    ∃ names, disk.locate p = .ok names ∧ disk.HoldsFile names := by
  unfold isFile entry?
  cases disk.locate p with
  | error failure => simp
  | ok names =>
    cases h : disk.top.at? names with
    | none => simp [HoldsFile, h]
    | some entry => cases entry <;> simp [HoldsFile, Entry.isFile, h]

theorem holdsFile_of_isFile (hp : p.Along names) (h : disk.isFile p = true) :
    disk.HoldsFile names := by
  obtain ⟨found, hfound, hfile⟩ := isFile_iff.1 h
  exact eq_of_locate hp hfound ▸ hfile

/-- An absolute path names a file if there is one at the end of its names. -/
theorem isFile_ofNames_iff (hne : names ≠ []) (hnames : ∀ n ∈ names, Path.isName n = true) :
    disk.isFile (.ofNames names) = true ↔ disk.HoldsFile names := by
  refine ⟨holdsFile_of_isFile (Path.along_ofNames hnames), fun h => isFile_iff.2 ⟨names, ?_, h⟩⟩
  obtain ⟨content, hcontent⟩ := h
  rw [locate_of_isAbsolute (Path.isAbsolute_ofNames names), Path.pieces_ofNames hne hnames]
  exact foldlM_step hnames hcontent

/-- A path that leads anywhere from the top of the disk leads through the folder there. -/
theorem exists_folder_of_locate (hp : p.isAbsolute = true) (h : disk.locate p = .ok names) :
    ∃ entries, disk.top = .folder entries := by
  obtain ⟨piece, pieces, hpieces⟩ := List.exists_cons_of_ne_nil p.pieces_ne_nil
  rw [locate_of_isAbsolute hp, hpieces, List.foldlM_cons] at h
  cases htop : disk.top with
  | folder entries => exact ⟨entries, rfl⟩
  | file content =>
    have hstep : disk.step [] piece = .error .notDirectory := by simp [step, Entry.at?, htop]
    rw [hstep] at h
    cases h

/-- There is no file at the top of a disk. -/
theorem ne_nil_of_isFile (hp : p.Along names) (h : disk.isFile p = true) : names ≠ [] := by
  rintro rfl
  obtain ⟨found, hfound, content, hcontent⟩ := isFile_iff.1 h
  obtain rfl := eq_of_locate hp hfound
  obtain ⟨entries, htop⟩ := exists_folder_of_locate hp.isAbsolute hfound
  simp [Entry.at?, htop] at hcontent

theorem isFile_of_read {text : String} (h : disk.read p = .ok text) : disk.isFile p = true := by
  unfold read at h
  split at h
  · simp at h
  · next names hnames =>
    split at h
    · next hfile => exact isFile_iff.2 ⟨names, hnames, _, hfile⟩
    all_goals simp at h

/-- An absolute path to a file has a folder. -/
theorem exists_parent?_of_isFile (hp : p.isAbsolute = true) (h : disk.isFile p = true) :
    ∃ dir, p.parent? = some dir ∧ dir.isAbsolute = true := by
  cases hdir : p.parent? with
  | none => exact absurd rfl (ne_nil_of_isFile (Path.along_nil_of_parent? hp hdir) h)
  | some dir => exact ⟨dir, rfl, Path.isAbsolute_parent? hp hdir⟩

end Disk

end QualityGate
