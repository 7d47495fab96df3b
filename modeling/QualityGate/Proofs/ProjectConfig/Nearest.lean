import QualityGate.ProjectConfig
import QualityGate.Proofs.Disk
import Mathlib.Data.List.Induction

/-!
The configuration file that a folder answers to. Of the folders from this one up to the root that
hold a configuration file the deepest decides, and in each folder `tsconfig.json` comes first.
-/
namespace QualityGate.ProjectConfig

/-- The configuration file of a folder. -/
inductive InFolder (disk : Disk) (folder : List String) : List String → Prop
  | tsconfig (h : disk.HoldsFile (folder ++ ["tsconfig.json"])) :
    InFolder disk folder (folder ++ ["tsconfig.json"])
  | jsconfig (hno : ¬ disk.HoldsFile (folder ++ ["tsconfig.json"]))
    (h : disk.HoldsFile (folder ++ ["jsconfig.json"])) :
    InFolder disk folder (folder ++ ["jsconfig.json"])

/-- A folder on the way from `start` up to `root`. -/
structure OnWay (root start folder : List String) : Prop where
  below_root : root <+: folder
  above_start : folder <+: start

/-- The configuration file of the deepest folder that has one on the way from `start` up to
`root`. -/
def Nearest (disk : Disk) (root start config : List String) : Prop :=
  ∃ folder, OnWay root start folder ∧ InFolder disk folder config ∧
    ∀ deeper, OnWay root start deeper → folder.length < deeper.length →
      ∀ other, ¬ InFolder disk deeper other

variable {disk : Disk} {root start folder config : List String} {name : String} {p : Path}

theorem InFolder.eq_concat (h : InFolder disk folder config) :
    ∃ name ∈ fileNames, config = folder ++ [name] := by
  cases h with
  | tsconfig => exact ⟨_, List.mem_cons_self, rfl⟩
  | jsconfig => exact ⟨_, List.mem_cons_of_mem _ List.mem_cons_self, rfl⟩

theorem isName_of_mem_fileNames (h : name ∈ fileNames) : Path.isName name = true := by
  have hall : ∀ n ∈ fileNames, Path.isName n = true := by decide
  exact hall name h

theorem isName_concat (hnames : ∀ n ∈ folder, Path.isName n = true) (h : name ∈ fileNames) :
    ∀ n ∈ folder ++ [name], Path.isName n = true :=
  List.forall_mem_append.2 ⟨hnames, List.forall_mem_singleton.2 (isName_of_mem_fileNames h)⟩

theorem isFile_join_iff (hnames : ∀ n ∈ folder, Path.isName n = true) (h : name ∈ fileNames) :
    disk.isFile ((Path.ofNames folder).join name) = true ↔ disk.HoldsFile (folder ++ [name]) := by
  rw [Path.join_name (isName_concat hnames h)]
  exact Disk.isFile_ofNames_iff (by simp) (isName_concat hnames h)

theorem InFolder.unique {other : List String} (h : InFolder disk folder config)
    (k : InFolder disk folder other) : config = other := by
  cases h with
  | tsconfig h =>
    cases k with
    | tsconfig => rfl
    | jsconfig hno => exact absurd h hno
  | jsconfig hno h =>
    cases k with
    | tsconfig k => exact absurd k hno
    | jsconfig => rfl

theorem inFolder?_of_inFolder (hnames : ∀ n ∈ folder, Path.isName n = true)
    (h : InFolder disk folder config) :
    inFolder? disk (.ofNames folder) = some (.ofNames config) := by
  have hts : "tsconfig.json" ∈ fileNames := List.mem_cons_self
  have hjs : "jsconfig.json" ∈ fileNames := List.mem_cons_of_mem _ List.mem_cons_self
  rw [inFolder?, fileNames, List.map_cons, List.map_singleton]
  cases h with
  | tsconfig h =>
    rw [List.find?_cons_of_pos ((isFile_join_iff hnames hts).2 h),
      Path.join_name (isName_concat hnames hts)]
  | jsconfig hno h =>
    rw [List.find?_cons_of_neg (mt (isFile_join_iff hnames hts).1 hno),
      List.find?_cons_of_pos ((isFile_join_iff hnames hjs).2 h),
      Path.join_name (isName_concat hnames hjs)]

theorem exists_inFolder_iff : (∃ config, InFolder disk folder config) ↔
    ∃ name ∈ fileNames, disk.HoldsFile (folder ++ [name]) := by
  constructor
  · rintro ⟨config, h⟩
    cases h with
    | tsconfig h => exact ⟨_, List.mem_cons_self, h⟩
    | jsconfig hno h => exact ⟨_, List.mem_cons_of_mem _ List.mem_cons_self, h⟩
  · rintro ⟨name, hname, hholds⟩
    by_cases hts : disk.HoldsFile (folder ++ ["tsconfig.json"])
    · exact ⟨_, .tsconfig hts⟩
    · rcases List.mem_cons.1 hname with rfl | hname
      · exact absurd hholds hts
      · obtain rfl := List.mem_singleton.1 hname
        exact ⟨_, .jsconfig hts hholds⟩

/-- The file that is found in a folder is its configuration file. -/
theorem exists_of_inFolder? (hnames : ∀ n ∈ folder, Path.isName n = true)
    (h : inFolder? disk (.ofNames folder) = some p) :
    ∃ config, InFolder disk folder config ∧ p = .ofNames config := by
  obtain ⟨config, hconfig⟩ : ∃ config, InFolder disk folder config := by
    obtain ⟨name, hname, hjoin⟩ := List.mem_map.1 (List.mem_of_find?_eq_some h)
    exact exists_inFolder_iff.2 ⟨name, hname,
      (isFile_join_iff hnames hname).1 (hjoin ▸ List.find?_some h)⟩
  exact ⟨config, hconfig, Option.some.inj (h ▸ inFolder?_of_inFolder hnames hconfig)⟩

theorem not_inFolder_of_eq_none (hnames : ∀ n ∈ folder, Path.isName n = true)
    (h : inFolder? disk (.ofNames folder) = none) (config : List String) :
    ¬ InFolder disk folder config := by
  intro hconfig
  rw [inFolder?_of_inFolder hnames hconfig] at h
  cases h

theorem nearestFrom_root (fuel : Nat) (hroot : ∀ n ∈ root, Path.isName n = true) :
    nearestFrom disk (.ofNames root) (fuel + 1) (.ofNames root) =
      inFolder? disk (.ofNames root) := by
  rw [nearestFrom, if_pos ((Path.same_ofNames_iff hroot hroot).2 rfl)]
  split
  · next h => exact h.symm
  · next h => exact h.symm

/-- Where a folder below the root has no configuration file, the search goes on in the folder that
holds it. -/
theorem nearestFrom_concat (fuel : Nat) (hbelow : root <+: start)
    (hnames : ∀ n ∈ start ++ [name], Path.isName n = true) :
    nearestFrom disk (.ofNames root) (fuel + 1) (.ofNames (start ++ [name])) =
      (inFolder? disk (.ofNames (start ++ [name]))).or
        (nearestFrom disk (.ofNames root) fuel (.ofNames start)) := by
  have hstart : ∀ n ∈ start, Path.isName n = true := (List.forall_mem_append.1 hnames).1
  have hroot : ∀ n ∈ root, Path.isName n = true := fun n hn => hstart n (hbelow.subset hn)
  have hne : start ++ [name] ≠ root := by
    rintro rfl
    exact absurd hbelow.length_le (by simp)
  have hsame : ¬ (Path.ofNames (start ++ [name])).same (.ofNames root) = true :=
    mt (Path.same_ofNames_iff hnames hroot).1 hne
  rw [nearestFrom, if_neg hsame, Path.parent?_ofNames hnames]
  simp only [(Path.startsWith_ofNames_iff hstart hroot).2 hbelow, if_true]
  split
  · next h => rw [h, Option.some_or]
  · next h => rw [h, Option.none_or]

theorem onWay_root_iff : OnWay root root folder ↔ folder = root :=
  ⟨fun h => h.above_start.eq_of_length_le h.below_root.length_le,
    fun h => h ▸ ⟨List.prefix_rfl, List.prefix_rfl⟩⟩

theorem onWay_concat_iff (hbelow : root <+: start) :
    OnWay root (start ++ [name]) folder ↔ folder = start ++ [name] ∨ OnWay root start folder := by
  constructor
  · rintro ⟨hroot, hstart⟩
    exact (List.prefix_concat_iff.1 hstart).imp_right fun h => ⟨hroot, h⟩
  · rintro (rfl | ⟨hroot, hstart⟩)
    · exact ⟨hbelow.trans (List.prefix_append _ _), List.prefix_rfl⟩
    · exact ⟨hroot, hstart.trans (List.prefix_append _ _)⟩

theorem Nearest.here (h : InFolder disk start config) (hbelow : root <+: start) :
    Nearest disk root start config :=
  ⟨start, ⟨hbelow, List.prefix_rfl⟩, h,
    fun _ hdeeper hlt => absurd hdeeper.above_start.length_le (Nat.not_le.2 hlt)⟩

theorem Nearest.above (h : Nearest disk root start config) (hbelow : root <+: start)
    (hnone : ∀ other, ¬ InFolder disk (start ++ [name]) other) :
    Nearest disk root (start ++ [name]) config := by
  obtain ⟨folder, hway, hconfig, hdeepest⟩ := h
  refine ⟨folder, (onWay_concat_iff hbelow).2 (.inr hway), hconfig, fun deeper hdeeper hlt => ?_⟩
  rcases (onWay_concat_iff hbelow).1 hdeeper with rfl | hdeeper
  · exact hnone
  · exact hdeepest deeper hdeeper hlt

/-- A folder answers to one configuration file at most. -/
theorem Nearest.unique {other : List String} (h : Nearest disk root start config)
    (k : Nearest disk root start other) : config = other := by
  obtain ⟨folder, hway, hconfig, hdeepest⟩ := h
  obtain ⟨folder', hway', hother, hdeepest'⟩ := k
  have hle : folder'.length ≤ folder.length := Nat.not_lt.1 fun hlt => hdeepest _ hway' hlt _ hother
  have hge : folder.length ≤ folder'.length :=
    Nat.not_lt.1 fun hlt => hdeepest' _ hway hlt _ hconfig
  have hstart : folder <+: folder' :=
    List.prefix_of_prefix_length_le hway.above_start hway'.above_start hge
  obtain rfl := hstart.eq_of_length_le hle
  exact hconfig.unique hother

/-- The search finds the nearest configuration file, if there is one in any of the folders. -/
theorem nearestFrom_spec (hbelow : root <+: start) (hnames : ∀ n ∈ start, Path.isName n = true)
    {fuel : Nat} (hfuel : start.length < root.length + fuel) :
    (∃ config, Nearest disk root start config ∧
        nearestFrom disk (.ofNames root) fuel (.ofNames start) = some (.ofNames config)) ∨
      (nearestFrom disk (.ofNames root) fuel (.ofNames start) = none ∧
        ∀ folder, OnWay root start folder → ∀ config, ¬ InFolder disk folder config) := by
  obtain ⟨names, rfl⟩ := hbelow
  induction names using List.reverseRecOn generalizing fuel with
  | nil =>
    obtain ⟨fuel, rfl⟩ := Nat.exists_eq_add_one.2 (show 0 < fuel by simpa using hfuel)
    rw [List.append_nil] at hnames ⊢
    rw [nearestFrom_root fuel hnames]
    cases hin : inFolder? disk (.ofNames root) with
    | some p =>
      obtain ⟨config, hconfig, rfl⟩ := exists_of_inFolder? hnames hin
      exact .inl ⟨config, .here hconfig List.prefix_rfl, rfl⟩
    | none =>
      refine .inr ⟨rfl, fun folder hway => ?_⟩
      obtain rfl := onWay_root_iff.1 hway
      exact not_inFolder_of_eq_none hnames hin
  | append_singleton names name ih =>
    rw [← List.append_assoc] at hnames hfuel ⊢
    have hbelow : root <+: root ++ names := List.prefix_append _ _
    have habove : ∀ n ∈ root ++ names, Path.isName n = true := (List.forall_mem_append.1 hnames).1
    rw [List.length_append, List.length_singleton] at hfuel
    have hlength := hbelow.length_le
    obtain ⟨fuel, rfl⟩ := Nat.exists_eq_add_one.2 (show 0 < fuel by omega)
    have hless : (root ++ names).length < root.length + fuel := by omega
    rw [nearestFrom_concat fuel hbelow hnames]
    cases hin : inFolder? disk (.ofNames (root ++ names ++ [name])) with
    | some p =>
      obtain ⟨config, hconfig, rfl⟩ := exists_of_inFolder? hnames hin
      exact .inl ⟨config, .here hconfig (hbelow.trans (List.prefix_append _ _)), rfl⟩
    | none =>
      have hnone := not_inFolder_of_eq_none hnames hin
      rcases ih habove hless with ⟨config, hconfig, he⟩ | ⟨he, hall⟩
      · exact .inl ⟨config, hconfig.above hbelow hnone, he⟩
      · refine .inr ⟨he, fun folder hway => ?_⟩
        rcases (onWay_concat_iff hbelow).1 hway with rfl | hway
        · exact hnone
        · exact hall folder hway

theorem nearest?_spec (hbelow : root <+: start) (hnames : ∀ n ∈ start, Path.isName n = true) :
    (∃ config, Nearest disk root start config ∧
        nearest? disk (.ofNames root) (.ofNames start) = some (.ofNames config)) ∨
      (nearest? disk (.ofNames root) (.ofNames start) = none ∧
        ∀ folder, OnWay root start folder → ∀ config, ¬ InFolder disk folder config) := by
  refine nearestFrom_spec hbelow hnames ?_
  rw [Path.components_ofNames hnames, List.length_cons, List.length_map]
  omega

/-- What is found is the configuration file of the deepest folder that has one. -/
theorem nearest?_eq_some_iff (hbelow : root <+: start)
    (hnames : ∀ n ∈ start, Path.isName n = true) :
    nearest? disk (.ofNames root) (.ofNames start) = some p ↔
      ∃ config, Nearest disk root start config ∧ p = .ofNames config := by
  rcases @nearest?_spec disk root start hbelow hnames with ⟨config, hconfig, he⟩ | ⟨he, hall⟩
  · rw [he]
    constructor
    · rintro ⟨⟩
      exact ⟨config, hconfig, rfl⟩
    · rintro ⟨other, hother, rfl⟩
      rw [hconfig.unique hother]
  · rw [he]
    constructor
    · rintro ⟨⟩
    · rintro ⟨other, ⟨folder, hway, hother, -⟩, -⟩
      exact absurd hother (hall folder hway other)

/-- Nothing is found where no folder on the way has a configuration file. -/
theorem nearest?_eq_none_iff (hbelow : root <+: start)
    (hnames : ∀ n ∈ start, Path.isName n = true) :
    nearest? disk (.ofNames root) (.ofNames start) = none ↔
      ∀ folder, OnWay root start folder → ∀ config, ¬ InFolder disk folder config := by
  rcases @nearest?_spec disk root start hbelow hnames with
    ⟨config, ⟨folder, hway, hconfig, -⟩, he⟩ | ⟨he, hall⟩
  · rw [he]
    constructor
    · rintro ⟨⟩
    · intro hall
      exact absurd hconfig (hall folder hway config)
  · exact ⟨fun _ => hall, fun _ => he⟩

end QualityGate.ProjectConfig
