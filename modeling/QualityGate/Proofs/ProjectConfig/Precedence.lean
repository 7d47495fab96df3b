import QualityGate.ProjectConfig
import Mathlib.Data.List.Basic

/-!
The options that a configuration file puts in effect. Each of them is the one of the first file that
declares it, where the file itself comes before those it extends, and of these the last one first.
-/
namespace QualityGate.ProjectConfig

/-- What one configuration file declares, with the folder that its paths start from. -/
structure Layer where
  folder : Path
  declared : CompilerOptions.Declared

namespace Layer

def baseUrl? (l : Layer) : Option Path := l.declared.baseUrl.map l.folder.join

/-- Aliases count as declared if there are any. -/
def paths? (l : Layer) : Option AliasTable := l.declared.paths.filter (!·.isEmpty)

def pathsFolder? (l : Layer) : Option Path := l.paths?.map fun _ => l.folder

end Layer

/-- The configuration that a file holds, if it can be read as one. -/
def document? (disk : Disk) (p : Path) : Option ConfigDocument :=
  (disk.read p).toOption.bind ConfigDocument.parse?

def folderOf (p : Path) : Path := p.parent?.getD ⟨"."⟩

/-- The files that count for a file, by precedence: the file itself and then, while steps of
extension are left, each file it extends with those that count for that one, from the last to the
first. Files that are no configurations are left out. -/
def layers (disk : Disk) : ℕ → Path → List Layer
  | steps, p =>
    match document? disk p with
    | none => []
    | some document => ⟨folderOf p, document.declared⟩ ::
      match steps with
      | 0 => []
      | steps + 1 =>
        (ConfigDocument.targets disk (folderOf p) document.bases).reverse.flatMap
          (layers disk steps)

/-- The same files, those apart that count for one of the extended files. -/
def branches (disk : Disk) (steps : ℕ) (p : Path) : List (List Layer) :=
  match document? disk p with
  | none => []
  | some document => [⟨folderOf p, document.declared⟩] ::
    match steps with
    | 0 => []
    | steps + 1 =>
      (ConfigDocument.targets disk (folderOf p) document.bases).reverse.map (layers disk steps)

/-- Every option is the one of the first file that declares it. -/
structure TakesFirst (ls : List Layer) (o : CompilerOptions) : Prop where
  strict : o.strict = ls.findSome? (·.declared.strict)
  noImplicitAny : o.noImplicitAny = ls.findSome? (·.declared.noImplicitAny)
  baseUrl : o.baseUrl = ls.findSome? Layer.baseUrl?
  paths : o.paths = (ls.findSome? Layer.paths?).getD []

/-- Without a base URL the targets of aliases start from the file that declares these. -/
structure Layered (ls : List Layer) (o : CompilerOptions) : Prop extends TakesFirst ls o where
  pathsBase : o.baseUrl = none → o.pathsBase = ls.findSome? Layer.pathsFolder?

def pathsStart? (ls : List Layer) : Option Path :=
  (ls.findSome? Layer.baseUrl?).or (ls.findSome? Layer.pathsFolder?)

/-- The first branch with a base URL or with aliases tells where the targets of aliases start
from. -/
structure Loaded (bs : List (List Layer)) (o : CompilerOptions) :
    Prop extends TakesFirst bs.flatten o where
  pathsBase : o.pathsBase = bs.findSome? pathsStart?

variable {disk : Disk} {p : Path} {document : ConfigDocument} {ls ms : List Layer} {l : Layer}
  {bs cs : List (List Layer)} {o own base : CompilerOptions} {steps : ℕ}

theorem flatten_branches : (branches disk steps p).flatten = layers disk steps p := by
  cases h : document? disk p with
  | none => cases steps <;> simp [branches, layers, h]
  | some document => cases steps <;> simp [branches, layers, h, List.flatMap_def]

theorem isEmpty_firstPaths_iff :
    ((ls.findSome? Layer.paths?).getD []).isEmpty = true ↔ ls.findSome? Layer.paths? = none := by
  cases h : ls.findSome? Layer.paths? with
  | none => simp
  | some table =>
    obtain ⟨l, -, hl⟩ := List.exists_of_findSome?_eq_some h
    have hempty : table.isEmpty = false := by simpa using (Option.filter_eq_some_iff.1 hl).2
    simp [hempty]

theorem findSome?_pathsFolder?_eq_none_iff :
    ls.findSome? Layer.pathsFolder? = none ↔ ls.findSome? Layer.paths? = none := by
  simp [Layer.pathsFolder?]

theorem takesFirst_options (l : Layer) : TakesFirst [l] (l.declared.options l.folder) where
  strict := by simp [CompilerOptions.Declared.options]
  noImplicitAny := by simp [CompilerOptions.Declared.options]
  baseUrl := by simp [CompilerOptions.Declared.options, Layer.baseUrl?]
  paths := by
    cases h : l.declared.paths with
    | none => simp [CompilerOptions.Declared.options, Layer.paths?, h]
    | some table => cases table <;>
      simp [CompilerOptions.Declared.options, Layer.paths?, h, Option.filter]

/-- What is extended counts behind all that extends it. -/
theorem TakesFirst.extending (h : TakesFirst ls own) (k : TakesFirst ms base) :
    TakesFirst (ls ++ ms) (own.extending base) where
  strict := by simp [CompilerOptions.extending, h.strict, k.strict, List.findSome?_append]
  noImplicitAny := by
    simp [CompilerOptions.extending, h.noImplicitAny, k.noImplicitAny, List.findSome?_append]
  baseUrl := by simp [CompilerOptions.extending, h.baseUrl, k.baseUrl, List.findSome?_append]
  paths := by
    simp only [CompilerOptions.extending, h.paths, k.paths, List.findSome?_append]
    split_ifs with he
    · rw [isEmpty_firstPaths_iff.1 he, Option.none_or]
    · obtain ⟨table, htable⟩ := Option.ne_none_iff_exists'.1 (mt isEmpty_firstPaths_iff.2 he)
      rw [htable, Option.some_or]

theorem layered_options (l : Layer) : Layered [l] (l.declared.options l.folder) where
  toTakesFirst := takesFirst_options l
  pathsBase := fun _ => by
    cases h : l.declared.paths with
    | none => simp [CompilerOptions.Declared.options, Layer.pathsFolder?, Layer.paths?, h]
    | some table =>
      cases table <;>
        simp [CompilerOptions.Declared.options, Layer.pathsFolder?, Layer.paths?, h, Option.filter]

theorem Loaded.nothing : Loaded [] .none := ⟨⟨rfl, rfl, rfl, rfl⟩, rfl⟩

/-- A branch without files tells nothing. -/
theorem Loaded.skip (h : Loaded bs o) : Loaded ([] :: bs) o := ⟨h.toTakesFirst, h.pathsBase⟩

theorem Layered.extending (h : Layered ls own) (k : Loaded bs base) :
    Loaded (ls :: bs) (own.extending base) where
  toTakesFirst := List.flatten_cons ▸ h.toTakesFirst.extending k.toTakesFirst
  pathsBase := by
    rw [List.findSome?_cons, pathsStart?, ← h.baseUrl]
    cases hurl : own.baseUrl with
    | some url => simp [CompilerOptions.extending, hurl]
    | none =>
      have hempty : own.paths.isEmpty = true ↔ ls.findSome? Layer.pathsFolder? = none := by
        rw [h.paths, isEmpty_firstPaths_iff, findSome?_pathsFolder?_eq_none_iff]
      rw [Option.none_or]
      cases hfolder : ls.findSome? Layer.pathsFolder? with
      | none => simp [CompilerOptions.extending, hurl, hempty, hfolder, k.pathsBase]
      | some folder => simp [CompilerOptions.extending, hurl, hempty, hfolder, h.pathsBase hurl]

theorem findSome?_pathsStart?_of_baseUrl (hn : bs.flatten.findSome? Layer.baseUrl? = none) :
    bs.findSome? pathsStart? = bs.flatten.findSome? Layer.pathsFolder? := by
  induction bs with
  | nil => rfl
  | cons b bs ih =>
    rw [List.flatten_cons, List.findSome?_append, Option.or_eq_none_iff] at hn
    rw [List.findSome?_cons, List.flatten_cons, List.findSome?_append, pathsStart?, hn.1, ih hn.2]
    cases b.findSome? Layer.pathsFolder? <;> rfl

theorem Loaded.layered (h : Loaded bs o) : Layered bs.flatten o where
  toTakesFirst := h.toTakesFirst
  pathsBase := fun hn => by rw [h.pathsBase, findSome?_pathsStart?_of_baseUrl (h.baseUrl ▸ hn)]

/-- What is in effect once `target` is extended as well. -/
def extendedBy (disk : Disk) (steps : ℕ) (base : CompilerOptions) (target : Path) :
    CompilerOptions :=
  match loadOptions disk steps target with
  | .ok options => options.extending base
  | .error _ => base

/-- What a file takes over from those it extends. -/
def inherited (disk : Disk) (p : Path) (document : ConfigDocument) : ℕ → CompilerOptions
  | 0 => .none
  | steps + 1 =>
    (ConfigDocument.targets disk (folderOf p) document.bases).foldl (extendedBy disk steps) .none

theorem loadOptions_of_none (h : document? disk p = none) (steps : ℕ) :
    ∃ failure, loadOptions disk steps p = .error failure := by
  rw [loadOptions]
  split
  · exact ⟨_, rfl⟩
  · next text hread =>
    split
    · exact ⟨_, rfl⟩
    · next document hparse => simp [document?, hread, hparse, Except.toOption] at h

theorem loadOptions_of_some (h : document? disk p = some document) (steps : ℕ) :
    loadOptions disk steps p =
      .ok ((document.declared.options (folderOf p)).extending
        (inherited disk p document steps)) := by
  obtain ⟨text, hread, hparse⟩ := Option.bind_eq_some_iff.1 h
  cases hdisk : disk.read p with
  | error failure => simp [hdisk, Except.toOption] at hread
  | ok text' =>
    obtain rfl : text' = text := by simpa [hdisk, Except.toOption] using hread
    rw [loadOptions, hdisk]
    simp only [hparse]
    cases steps <;> rfl

theorem layers_of_none (h : document? disk p = none) : layers disk steps p = [] := by
  rw [← flatten_branches, branches, h]
  rfl

/-- Of the files that are extended one after the other, those extended later come first. -/
theorem Loaded.foldl_extendedBy
    (hload : ∀ {target o}, loadOptions disk steps target = .ok o →
      Loaded (branches disk steps target) o)
    (targets : List Path) (h : Loaded bs base) :
    Loaded (targets.reverse.map (layers disk steps) ++ bs)
      (targets.foldl (extendedBy disk steps) base) := by
  induction targets generalizing bs base with
  | nil => exact h
  | cons target targets ih =>
    have hnext : Loaded (layers disk steps target :: bs) (extendedBy disk steps base target) := by
      unfold extendedBy
      split
      · next o ho => exact flatten_branches ▸ (hload ho).layered.extending h
      · next failure hfailure =>
        have hnone : document? disk target = none := by
          by_contra hsome
          obtain ⟨document, hdocument⟩ := Option.ne_none_iff_exists'.1 hsome
          simp [loadOptions_of_some hdocument] at hfailure
        rw [layers_of_none hnone]
        exact h.skip
    have hall := ih hnext
    rwa [List.reverse_cons, List.map_append, List.append_assoc]

theorem loaded_inherited (document : ConfigDocument)
    (hload : ∀ {target o}, loadOptions disk steps target = .ok o →
      Loaded (branches disk steps target) o) :
    Loaded ((ConfigDocument.targets disk (folderOf p) document.bases).reverse.map
      (layers disk steps))
      (inherited disk p document (steps + 1)) := by
  have h := Loaded.nothing.foldl_extendedBy hload
    (ConfigDocument.targets disk (folderOf p) document.bases)
  rwa [List.append_nil] at h

/-- What is loaded are the options of the files that count, however they extend one another. -/
theorem loaded_of_loadOptions (h : loadOptions disk steps p = .ok o) :
    Loaded (branches disk steps p) o := by
  induction steps generalizing p o with
  | zero =>
    cases hp : document? disk p with
    | none =>
      obtain ⟨failure, hfailure⟩ := loadOptions_of_none hp 0
      simp [hfailure] at h
    | some document =>
      obtain rfl := Except.ok.inj ((loadOptions_of_some hp 0).symm.trans h)
      rw [branches, hp]
      exact (layered_options _).extending .nothing
  | succ steps ih =>
    cases hp : document? disk p with
    | none =>
      obtain ⟨failure, hfailure⟩ := loadOptions_of_none hp (steps + 1)
      simp [hfailure] at h
    | some document =>
      obtain rfl := Except.ok.inj ((loadOptions_of_some hp (steps + 1)).symm.trans h)
      rw [branches, hp]
      exact (layered_options _).extending (loaded_inherited document ih)

theorem exists_load_iff : (∃ config, load disk p = .ok config) ↔
    (document? disk p).isSome = true := by
  cases hp : document? disk p with
  | none =>
    obtain ⟨failure, hfailure⟩ := loadOptions_of_none hp maxExtensions
    simp [load, hfailure, Except.map]
  | some document => simp [load, loadOptions_of_some hp, Except.map]

theorem loaded_of_load {config : ProjectConfig} (h : load disk p = .ok config) :
    config.path = p ∧ Loaded (branches disk maxExtensions p) config.options := by
  unfold load at h
  cases ho : loadOptions disk maxExtensions p with
  | error failure => simp [ho, Except.map] at h
  | ok options =>
    rw [ho] at h
    obtain rfl := Except.ok.inj h
    exact ⟨rfl, loaded_of_loadOptions ho⟩

/-- Loading ends with options just for the files that are configurations, whatever these extend.
Each option is the one of the first file that declares it, among the file itself and the
configurations that it extends in up to eight steps. -/
theorem load_takes_first_declared (disk : Disk) (p : Path) :
    ((∃ config, load disk p = .ok config) ↔ ∃ document, document? disk p = some document) ∧
      ∀ config, load disk p = .ok config →
        config.path = p ∧ TakesFirst (layers disk 8 p) config.options := by
  refine ⟨by rw [exists_load_iff, Option.isSome_iff_exists], fun config h => ?_⟩
  obtain ⟨hpath, hloaded⟩ := loaded_of_load h
  have hlayers : (branches disk maxExtensions p).flatten = layers disk 8 p := flatten_branches
  exact ⟨hpath, hlayers ▸ hloaded.toTakesFirst⟩

/-- Two files that extend each other, a third one, one that is missing, and a package. -/
def ringOfConfigs : Disk where
  top := .folder [("p", .folder
    [("tsconfig.json",
      .file (some ("\x7b\"extends\": [\"./a\", \"./missing\", \"pkg\", \"./b\"]," ++
        "\"compilerOptions\": \x7b\"noImplicitAny\": false\x7d\x7d"))),
     ("a.json", .file (some ("\x7b\"extends\": \"./tsconfig.json\"," ++
        "\"compilerOptions\": \x7b\"strict\": false, \"baseUrl\": \"src\"\x7d\x7d"))),
     ("b.json", .file (some "\x7b\"compilerOptions\": \x7b\"strict\": true\x7d\x7d"))])]
  here := []

/-- The third file comes before the first one, which alone has a base URL. -/
theorem load_ringOfConfigs : ∃ config, load ringOfConfigs ⟨"/p/tsconfig.json"⟩ = .ok config ∧
    config.options.strict = some true ∧ config.options.noImplicitAny = some false ∧
    config.options.baseUrl = some ⟨"/p/src"⟩ := by
  have hspec := load_takes_first_declared ringOfConfigs ⟨"/p/tsconfig.json"⟩
  have hread : (document? ringOfConfigs ⟨"/p/tsconfig.json"⟩).isSome = true := by decide +kernel
  obtain ⟨config, hload⟩ := hspec.1.2 (Option.isSome_iff_exists.1 hread)
  obtain ⟨-, hfirst⟩ := hspec.2 config hload
  refine ⟨config, hload, hfirst.strict.trans ?_, hfirst.noImplicitAny.trans ?_,
    hfirst.baseUrl.trans ?_⟩
  all_goals decide +kernel

end QualityGate.ProjectConfig
