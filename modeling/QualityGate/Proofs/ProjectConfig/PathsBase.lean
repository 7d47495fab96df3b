import QualityGate.Proofs.ProjectConfig.Precedence

/-!
Where the targets of aliases start from. They start from the base URL in effect, or else from the
folder of the file with the aliases, unless the base URL is found only behind the aliases, in a file
of another branch: then it is left out of account.
-/
namespace QualityGate.ProjectConfig

def upToPaths : List (List Layer) → List Layer
  | [] => []
  | b :: bs => if (b.findSome? Layer.paths?).isSome then b else b ++ upToPaths bs

variable {disk : Disk} {p : Path} {bs : List (List Layer)} {folder : Path}

theorem upToPaths_prefix (bs : List (List Layer)) : upToPaths bs <+: bs.flatten := by
  induction bs with
  | nil => exact List.prefix_rfl
  | cons b bs ih =>
    rw [upToPaths, List.flatten_cons]
    split_ifs
    · exact List.prefix_append _ _
    · exact (List.prefix_append_right_inj b).2 ih

/-- Of the base URLs only those count that are found up to the aliases. -/
theorem findSome?_pathsStart? (h : bs.flatten.findSome? Layer.pathsFolder? = some folder) :
    bs.findSome? pathsStart? = some (((upToPaths bs).findSome? Layer.baseUrl?).getD folder) := by
  induction bs with
  | nil => simp at h
  | cons b bs ih =>
    rw [List.flatten_cons, List.findSome?_append] at h
    rw [List.findSome?_cons, pathsStart?, upToPaths]
    cases hpaths : b.findSome? Layer.paths? with
    | none =>
      rw [findSome?_pathsFolder?_eq_none_iff.2 hpaths, Option.none_or] at h
      rw [findSome?_pathsFolder?_eq_none_iff.2 hpaths, Option.or_none, ih h]
      simp only [Option.isSome_none, Bool.false_eq_true, if_false, List.findSome?_append]
      cases b.findSome? Layer.baseUrl? <;> rfl
    | some table =>
      obtain ⟨folder', hfolder⟩ : ∃ folder', b.findSome? Layer.pathsFolder? = some folder' := by
        rw [← Option.ne_none_iff_exists', ne_eq, findSome?_pathsFolder?_eq_none_iff, hpaths]
        simp
      obtain rfl : folder' = folder := by simpa [hfolder] using h
      rw [hfolder, Option.isSome_some, if_pos rfl]
      cases b.findSome? Layer.baseUrl? <;> rfl

theorem baseUrl_of_upToPaths {url : Path} (h : (upToPaths bs).findSome? Layer.baseUrl? = some url) :
    bs.flatten.findSome? Layer.baseUrl? = some url := by
  obtain ⟨rest, hrest⟩ := upToPaths_prefix bs
  rw [← hrest, List.findSome?_append, h, Option.some_or]

/-- The targets of aliases start from the base URL in effect, or without one from the folder of the
file with the aliases, just where no base URL comes behind the aliases alone, unless it is the same
folder. In any case they start from the first base URL up to the aliases, or else from that
folder. -/
theorem pathsBase_follows_baseUrl_iff {config : ProjectConfig} (h : load disk p = .ok config)
    (hpaths : config.options.paths ≠ []) :
    ∃ folder, (layers disk 8 p).findSome? Layer.pathsFolder? = some folder ∧
      (config.options.pathsBase = some (config.options.baseUrl.getD folder) ↔
        config.options.baseUrl = (upToPaths (branches disk 8 p)).findSome? Layer.baseUrl? ∨
          config.options.baseUrl = some folder) ∧
      config.options.pathsBase =
        some (((upToPaths (branches disk 8 p)).findSome? Layer.baseUrl?).getD folder) := by
  obtain ⟨-, hloaded⟩ := loaded_of_load h
  have hlayers : (branches disk maxExtensions p).flatten = layers disk 8 p := flatten_branches
  have hdeclared : (layers disk 8 p).findSome? Layer.pathsFolder? ≠ none := by
    rw [ne_eq, findSome?_pathsFolder?_eq_none_iff, ← isEmpty_firstPaths_iff, ← hlayers,
      ← hloaded.paths]
    simpa using hpaths
  obtain ⟨folder, hfolder⟩ := Option.ne_none_iff_exists'.1 hdeclared
  have hbase : config.options.pathsBase =
      some (((upToPaths (branches disk 8 p)).findSome? Layer.baseUrl?).getD folder) :=
    hloaded.pathsBase.trans (findSome?_pathsStart? (hlayers ▸ hfolder))
  refine ⟨folder, hfolder, ?_, hbase⟩
  rw [hbase, Option.some_inj]
  cases hupTo : (upToPaths (branches disk 8 p)).findSome? Layer.baseUrl? with
  | some url =>
    have hurl : config.options.baseUrl = some url :=
      hloaded.baseUrl.trans (baseUrl_of_upToPaths hupTo)
    simp [hurl]
  | none => cases config.options.baseUrl <;> simp [eq_comm]

/-- Two files, the first of which extends the second, with the options that each of them
declares. -/
def extendingBase (own base : String) : Disk where
  top := .folder [("p", .folder
    [("tsconfig.json",
      .file (some ("\x7b\"extends\": \"./base\", \"compilerOptions\": " ++ own ++ "\x7d"))),
      ("base.json", .file (some ("\x7b\"compilerOptions\": " ++ base ++ "\x7d")))])]
  here := []

def aliases : String := "\x7b\"paths\": \x7b\"@/*\": [\"*\"]\x7d\x7d"

def sourceFolder : String := "\x7b\"baseUrl\": \"src\"\x7d"

theorem load_ownBaseUrl : load (extendingBase sourceFolder aliases) ⟨"/p/tsconfig.json"⟩ =
    .ok ⟨⟨"/p/tsconfig.json"⟩,
      ⟨none, none, some ⟨"/p/src"⟩, [("@/*", ["*"])], some ⟨"/p/src"⟩⟩⟩ := by
  decide +kernel

/-- The base URL of a file counts for the aliases that it takes over. -/
theorem pathsBase_of_ownBaseUrl : ∃ config,
    load (extendingBase sourceFolder aliases) ⟨"/p/tsconfig.json"⟩ = .ok config ∧
      config.options.paths ≠ [] ∧ config.options.pathsBase = config.options.baseUrl := by
  obtain ⟨folder, -, hiff, -⟩ := pathsBase_follows_baseUrl_iff load_ownBaseUrl (by decide)
  exact ⟨_, load_ownBaseUrl, by decide, hiff.2 (.inl (by decide +kernel))⟩

/-- The base URL that a file takes over is in effect, but does not count for the aliases of the
file. -/
theorem pathsBase_of_inheritedBaseUrl : ∃ config,
    load (extendingBase aliases sourceFolder) ⟨"/p/tsconfig.json"⟩ = .ok config ∧
      config.options.paths ≠ [] ∧ config.options.baseUrl = some ⟨"/p/src"⟩ ∧
      config.options.pathsBase = some ⟨"/p"⟩ := by
  have hload : load (extendingBase aliases sourceFolder) ⟨"/p/tsconfig.json"⟩ =
      .ok ⟨⟨"/p/tsconfig.json"⟩, ⟨none, none, some ⟨"/p/src"⟩, [("@/*", ["*"])], some ⟨"/p"⟩⟩⟩ := by
    decide +kernel
  exact ⟨_, hload, by decide, rfl, rfl⟩

end QualityGate.ProjectConfig
