import QualityGate.Proofs.DesignToken.References
import QualityGate.Proofs.Violation
import Mathlib.Data.List.Destutter

/-!
Tokens that no other file refers to. Each is reported where its module exports it, and a name that
several statements in a row export is reported once. A name that is exported again after another one
is reported again.
-/
namespace QualityGate.DesignToken

open Syntax Node

section

variable {names kept : List String} {a b name : String}

/-- The name comes once more after another one. -/
def ComesBack (names : List String) (name : String) : Prop :=
  ∃ other ≠ name, [name, other, name].Sublist names

theorem dropRepeats_eq (names : List String) : dropRepeats names = names.destutter (· ≠ ·) := by
  fun_induction dropRepeats names with
  | case1 a rest ih => rw [ih, List.destutter_cons_cons, if_neg (not_not.2 rfl)]; rfl
  | case2 a b rest hne ih => rw [ih, List.destutter_cons_cons, if_pos hne]; rfl
  | case3 names hshort =>
    match names with
    | [] => rfl
    | [a] => rfl
    | a :: b :: rest => exact (hshort a b rest rfl).elim

/-- Where no two neighbours are equal, none is dropped. -/
theorem sublist_dropRepeats (hkept : kept.IsChain (· ≠ ·)) (h : kept.Sublist names) :
    kept.Sublist (dropRepeats names) := by
  fun_induction dropRepeats names generalizing kept with
  | case1 a rest ih =>
    rcases List.sublist_cons_iff.1 h with hrest | ⟨tail, rfl, htail⟩
    · exact ih hkept hrest
    · rcases List.sublist_cons_iff.1 htail with hrest | ⟨tail, rfl, -⟩
      · exact ih hkept (hrest.cons_cons a)
      · exact absurd rfl (List.isChain_cons_cons.1 hkept).1
  | case2 a b rest hne ih =>
    rcases List.sublist_cons_iff.1 h with hrest | ⟨tail, rfl, htail⟩
    · exact (ih hkept hrest).cons a
    · exact (ih hkept.tail htail).cons_cons a
  | case3 names hshort => exact h

theorem dropRepeats_sublist (names : List String) : (dropRepeats names).Sublist names :=
  dropRepeats_eq names ▸ List.destutter_sublist _ names

theorem mem_dropRepeats : name ∈ dropRepeats names ↔ name ∈ names := by
  refine ⟨fun h => (dropRepeats_sublist names).subset h, fun h => ?_⟩
  exact List.singleton_sublist.1
    (sublist_dropRepeats (.singleton name) (List.singleton_sublist.2 h))

theorem comesBack_of_chain (hchain : names.IsChain (· ≠ ·)) (h : [name, name].Sublist names) :
    ComesBack names name := by
  induction names with
  | nil => cases h
  | cons first names ih =>
    rcases List.sublist_cons_iff.1 h with h | ⟨tail, htail, h⟩
    · obtain ⟨other, hne, hother⟩ := ih hchain.tail h
      exact ⟨other, hne, hother.cons first⟩
    · obtain ⟨rfl, rfl⟩ := List.cons.inj htail
      cases names with
      | nil => cases h
      | cons other names =>
        have hne := (List.isChain_cons_cons.1 hchain).1
        refine ⟨other, hne.symm, (List.Sublist.cons_cons other ?_).cons_cons name⟩
        exact List.singleton_sublist.2
          ((List.mem_cons.1 (List.singleton_sublist.1 h)).resolve_left hne)

theorem sublist_of_idxOf_le (hne : a ≠ b) (h : [a, b].Sublist names)
    (hle : names.idxOf b ≤ names.idxOf a) :
    [b, a, b].Sublist names := by
  induction names with
  | nil => cases h
  | cons first names ih =>
    by_cases hb : first = b
    · subst hb
      rcases List.sublist_cons_iff.1 h with h | ⟨tail, htail, -⟩
      · exact h.cons_cons first
      · exact absurd (List.cons.inj htail).1 hne
    · rw [List.idxOf_cons_ne _ hb] at hle
      by_cases ha : first = a
      · subst ha
        simp at hle
      · rw [List.idxOf_cons_ne _ ha] at hle
        rcases List.sublist_cons_iff.1 h with h | ⟨tail, htail, -⟩
        · exact (ih h (Nat.succ_le_succ_iff.1 hle)).cons first
        · exact absurd (List.cons.inj htail).1.symm ha

/-- The names that pass a test are each kept once, in the order in which they come first, just if
none of them comes back. -/
theorem pairwise_idxOf_iff (test : String → Bool) :
    ((dropRepeats names).filter test).Pairwise (fun a b => names.idxOf a < names.idxOf b) ↔
      ∀ name ∈ (dropRepeats names).filter test, ¬ ComesBack names name := by
  constructor
  · rintro hordered name hname ⟨other, hne, hback⟩
    have hchain : [name, other, name].IsChain (· ≠ ·) := by simp [hne, hne.symm]
    have htest : test name = true := (List.mem_filter.1 hname).2
    have htwice : [name, name].Sublist ([name, other, name].filter test) := by
      cases hother : test other <;> simp [htest, hother]
    have hkept := htwice.trans ((sublist_dropRepeats hchain hback).filter test)
    exact Nat.lt_irrefl _ (List.pairwise_iff_forall_sublist.1 hordered hkept)
  · intro honce
    rw [List.pairwise_iff_forall_sublist]
    intro a b hab
    have hkept : [a, b].Sublist (dropRepeats names) := hab.trans List.filter_sublist
    have hne : a ≠ b := by
      rintro rfl
      obtain ⟨other, hne, hback⟩ :=
        comesBack_of_chain (dropRepeats_eq names ▸ List.isChain_destutter _ names) hkept
      exact honce a (hab.subset List.mem_cons_self)
        ⟨other, hne, hback.trans (dropRepeats_sublist names)⟩
    by_contra hle
    refine honce b (hab.subset (by simp)) ⟨a, hne, ?_⟩
    exact sublist_of_idxOf_le hne (hkept.trans (dropRepeats_sublist names)) (Nat.le_of_not_lt hle)

end

mutual
/-- The names that a pattern binds. -/
def patternNames : Node → List Node
  | ⟨kind, role, named, start, stop, children⟩ =>
    match kind with
    | .identifier | .shorthandPropertyIdentifierPattern =>
      [⟨kind, role, named, start, stop, children⟩]
    | .objectPattern | .arrayPattern | .restPattern => patternNamesAll children
    | .pairPattern => patternNamesOfValue children
    | .assignmentPattern | .objectAssignmentPattern => patternNamesOfFirst children
    | _ => []

def patternNamesAll : List Node → List Node
  | [] => []
  | n :: ns => patternNames n ++ patternNamesAll ns

def patternNamesOfValue : List Node → List Node
  | [] => []
  | n :: ns => if n.role = some .value then patternNames n else patternNamesOfValue ns

def patternNamesOfFirst : List Node → List Node
  | [] => []
  | n :: _ => patternNames n
end

def isVariables (d : Node) : Bool := d.kind = .lexicalDeclaration || d.kind = .variableDeclaration

/-- The names of the variables that are declared, or the one name of what else is. -/
def ownNames (d : Node) : List Node :=
  if isVariables d then (d.parts.filterMap (·.child? .name)).flatMap patternNames
  else (d.child? .name).toList

/-- The names that a declaration declares, itself or behind `declare`. -/
def declared (d : Node) : List Node :=
  if isVariables d || d.has .name then ownNames d else d.parts.flatMap ownNames

/-- The names that a statement exports: those that it declares, and those by which the entries of
its clauses are known outside. -/
def statementNames (n : Node) : List Node :=
  (n.child? .declaration).toList.flatMap declared ++
    (n.parts.filter (·.kind = .exportClause)).flatMap fun clause =>
      clause.parts.filterMap fun spec => (spec.child? .alias) <|> (spec.child? .name)

variable (file : SourceFile)

def exportStatements : List Node := file.root.parts.filter (·.kind = .exportStatement)

/-- The names that a module exports, each as often as it does. -/
def exports : List String := ((exportStatements file).flatMap statementNames).map file.textOf

/-- A declaration of variables that have names, not patterns, or of something else that has a
name. -/
def isPlain (d : Node) : Bool :=
  if isVariables d then (d.parts.filterMap (·.child? .name)).all (·.kind = .identifier)
  else d.has .name

def ExportsPlainly : Prop :=
  ∀ n ∈ exportStatements file, ∀ d ∈ n.child? .declaration, isPlain d = true

instance : Decidable (ExportsPlainly file) :=
  inferInstanceAs (Decidable (∀ n ∈ exportStatements file,
    ∀ d ∈ n.child? .declaration, isPlain d = true))

variable {file}

theorem patternNames_of_identifier {n : Node} (h : n.kind = .identifier) :
    patternNames n = [n] := by
  obtain ⟨kind, role, named, start, stop, children⟩ := n
  obtain rfl : kind = .identifier := h
  rfl

theorem declaredNames_eq {d : Node} (h : isPlain d = true) :
    declaredNames file d = (declared d).map file.textOf := by
  unfold isPlain at h
  change (if isVariables d then _ else _) = _
  split_ifs at h with hd
  · have hnames : ∀ name ∈ d.parts.filterMap (·.child? .name), name.kind = .identifier :=
      fun name hname => of_decide_eq_true (List.all_eq_true.1 h name hname)
    have hpatterns : (d.parts.filterMap (·.child? .name)).flatMap patternNames =
        d.parts.filterMap (·.child? .name) := by
      rw [List.flatMap_congr fun name hname => patternNames_of_identifier (hnames name hname)]
      exact List.flatMap_singleton' _
    rw [if_pos hd, List.filter_eq_self.2 fun name hname => decide_eq_true (hnames name hname),
      declared, hd, Bool.true_or, if_pos rfl, ownNames, if_pos hd, hpatterns]
  · rw [if_neg hd, declared, h, Bool.or_true, if_pos rfl, ownNames, if_neg hd]
    cases d.child? .name <;> rfl

theorem clauseNames_eq (clause : Node) : clauseNames file clause =
    (clause.parts.filterMap fun spec => (spec.child? .alias) <|>
      (spec.child? .name)).map file.textOf := by
  rw [clauseNames, List.map_filterMap]

theorem exportedNames_eq (h : ExportsPlainly file) :
    exportedNames file = dropRepeats (exports file) := by
  rw [exportedNames, exports, List.map_flatMap]
  refine congrArg dropRepeats (List.flatMap_congr fun n hn => ?_)
  have hdeclared : ((n.child? .declaration).map (declaredNames file)).getD [] =
      ((n.child? .declaration).toList.flatMap declared).map file.textOf := by
    cases hd : n.child? .declaration with
    | none => rfl
    | some d => simp [declaredNames_eq (h n hn d hd)]
  rw [hdeclared, statementNames, List.map_append,
    List.flatMap_congr fun clause _ => clauseNames_eq clause, ← List.map_flatMap]

def isTokensFile (settings : Settings) (file : SourceFile) : Bool :=
  match file.path.fileName? with
  | some name => settings.tokensFileNames.contains name
  | none => false

/-- No file other than the module refers to the token. -/
def Unreferenced (files : List SourceFile) (tokens : SourceFile) (name : String) : Prop :=
  ∀ file ∈ files, file.path.same tokens.path = false → ¬ Refers file name

instance (files : List SourceFile) (tokens : SourceFile) (name : String) :
    Decidable (Unreferenced files tokens name) :=
  inferInstanceAs (Decidable (∀ file ∈ files, file.path.same tokens.path = false →
    ¬ Refers file name))

def unusedBreach (name : String) : Violation :=
  .warning .tokenDefinedNotUsed ("Token \"" ++ name ++ "\" is defined but not used in the project")

variable {settings : Settings} {files others : List SourceFile} {tokens : SourceFile}

theorem tokensFile?_eq (settings : Settings) (files : List SourceFile) :
    tokensFile? settings files = files.find? (isTokensFile settings) := rfl

theorem unused_eq (h : tokensFile? settings files = some tokens) : unused settings files =
    ((exportedNames tokens).filter fun name =>
      Unreferenced files tokens name).map unusedBreach := by
  rw [unused, h]
  refine congrArg (List.map unusedBreach) (List.filter_congr fun name _ => ?_)
  refine Bool.eq_iff_iff.2 ?_
  simp [Unreferenced, ← mem_usedIn]

theorem unreferenced_perm (h : others.Perm files) (name : String) :
    Unreferenced others tokens name ↔ Unreferenced files tokens name :=
  forall_congr' fun _ => imp_congr_left h.mem_iff

/-- Among files with a module of tokens, the first such module is looked at. Where its exports are
plain, just those that no other file refers to are reported, each once and in their order just if
none of them comes back. The order of the files is of no account as long as the module stays the
first. -/
theorem unused_eachOnce_iff (settings : Settings) (files : List SourceFile)
    (h : ∃ file ∈ files, isTokensFile settings file = true) :
    ∃ tokens ∈ files, tokensFile? settings files = some tokens ∧
      (ExportsPlainly tokens →
        ∃ names : List String, unused settings files = names.map unusedBreach ∧
        (∀ name, name ∈ names ↔ name ∈ exports tokens ∧ Unreferenced files tokens name) ∧
        (names.Pairwise (fun a b => (exports tokens).idxOf a < (exports tokens).idxOf b) ↔
          ∀ name ∈ names, ¬ ComesBack (exports tokens) name)) ∧
      ∀ others, others.Perm files → tokensFile? settings others = some tokens →
        unused settings others = unused settings files := by
  obtain ⟨tokens, htokens⟩ := Option.isSome_iff_exists.1 (List.find?_isSome.2 h)
  refine ⟨tokens, List.mem_of_find?_eq_some htokens, htokens,
    fun hplain => ?_, fun others hperm hothers => ?_⟩
  · refine ⟨_, unused_eq htokens, fun name => ?_, ?_⟩
    · rw [exportedNames_eq hplain, List.mem_filter, mem_dropRepeats, decide_eq_true_iff]
    · rw [exportedNames_eq hplain]
      exact pairwise_idxOf_iff _
  · rw [unused_eq htokens, unused_eq hothers]
    exact congrArg (List.map unusedBreach) (List.filter_congr fun name _ =>
      decide_eq_decide.2 (unreferenced_perm hperm name))

/-- Of two tokens one is referred to on another page, whichever of the two files comes first. -/
theorem unused_of_referred : ∃ tokens page,
    SourceFile.parse ⟨"tokens.ts"⟩ "export const red = 1, blue = 2;" = .ok tokens ∧
      SourceFile.parse ⟨"page.ts"⟩ "import \x7b tokens \x7d from './tokens'; use(tokens.red);" =
        .ok page ∧
      ExportsPlainly tokens ∧ tokensFile? .default [tokens, page] = some tokens ∧
      (∃ names : List String, unused .default [tokens, page] = names.map unusedBreach ∧
        (∀ name, name ∈ names ↔ name ∈ exports tokens ∧ Unreferenced [tokens, page] tokens name) ∧
        (names.Pairwise (fun a b => (exports tokens).idxOf a < (exports tokens).idxOf b) ↔
          ∀ name ∈ names, ¬ ComesBack (exports tokens) name)) ∧
      unused .default [tokens, page] = [unusedBreach "blue"] ∧
      unused .default [page, tokens] = unused .default [tokens, page] := by
  have hrun : (SourceFile.parse ⟨"tokens.ts"⟩ "export const red = 1, blue = 2;").toOption.any
      (fun tokens : SourceFile =>
        (SourceFile.parse ⟨"page.ts"⟩
          "import \x7b tokens \x7d from './tokens'; use(tokens.red);").toOption.any
          (fun page : SourceFile => isTokensFile .default tokens = true ∧
            isTokensFile .default page = false ∧
            ExportsPlainly tokens ∧ unused .default [tokens, page] =
              [unusedBreach "blue"])) = true := by
    decide +kernel
  obtain ⟨tokens, htokens, h⟩ := exists_ok_of_any hrun
  obtain ⟨page, hpage, h⟩ := exists_ok_of_any h
  obtain ⟨hmodule, hother, hplain, hunused⟩ := of_decide_eq_true h
  have hfirst : tokensFile? .default [tokens, page] = some tokens := by
    simp [tokensFile?_eq, hmodule]
  obtain ⟨found, -, hfound, heach, horder⟩ :=
    unused_eachOnce_iff .default [tokens, page] ⟨tokens, by simp, hmodule⟩
  obtain rfl : tokens = found := Option.some.inj (hfirst.symm.trans hfound)
  exact ⟨tokens, page, htokens, hpage, hplain, hfirst, heach hplain, hunused,
    horder [page, tokens] (.swap tokens page []) (by simp [tokensFile?_eq, hmodule, hother])⟩

/-- A name that is exported again after another one is reported again. -/
theorem unused_of_comesBack : ∃ tokens,
    SourceFile.parse ⟨"tokens.ts"⟩ "export type a = 1; export const b = 2; export const a = 3;" =
      .ok tokens ∧
      exports tokens = ["a", "b", "a"] ∧ Unreferenced [tokens] tokens "a" ∧
      unused .default [tokens] = [unusedBreach "a", unusedBreach "b", unusedBreach "a"] := by
  have hrun : (SourceFile.parse ⟨"tokens.ts"⟩
      "export type a = 1; export const b = 2; export const a = 3;").toOption.any
        (fun tokens : SourceFile =>
        exports tokens = ["a", "b", "a"] ∧ Unreferenced [tokens] tokens "a" ∧
          unused .default [tokens] = [unusedBreach "a", unusedBreach "b", unusedBreach "a"]) =
            true := by
    decide +kernel
  obtain ⟨tokens, htokens, h⟩ := exists_ok_of_any hrun
  exact ⟨tokens, htokens, of_decide_eq_true h⟩

end QualityGate.DesignToken
