import QualityGate.Proofs.TypeShape.Pieces
import QualityGate.Proofs.Violation

/-!
Which types count as identical. The check reports every declaration that has the shape of an earlier
one. Two such declarations are written with the same tokens, except that a shape does not know what
stands in quotes: it leaves out parts of literals like comments, separators and blanks.
-/
namespace QualityGate.TypeShape

open Syntax Text

variable (file : SourceFile)

/-- What is written in a declaration besides its name. -/
def written (d : Node) : List Char :=
  (d.parts.filter (·.role != some .name)).flatMap fun part => (file.textOf part).toList ++ [' ']

theorem ofDeclaration_eq_normalize (d : Node) :
    ofDeclaration file d = normalize (written file d) := rfl

def isNamed (d : Node) : Bool := (d.child? .name).isSome

def breach (first d : Node) : Violation :=
  (Violation.warning .noDuplicatedTypes ("Type \"" ++ ((d.child? .name).map file.textOf).getD ""
    ++ "\" is identical to type at line " ++
      toString (file.location first).line)).located (file.location d)

def sameShape? (d : Node) (ds : List Node) : Option Node :=
  ds.find? fun first => ofDeclaration file first == ofDeclaration file d

variable {file}

theorem exists_split_cons {α : Type*} {a : α} {l : List α} {P : List α → α → Prop} :
    (∃ earlier b later, a :: l = earlier ++ b :: later ∧ P earlier b) ↔
      P [] a ∨ ∃ earlier b later, l = earlier ++ b :: later ∧ P (a :: earlier) b := by
  constructor
  · rintro ⟨_ | ⟨c, earlier⟩, b, later, he, h⟩
    · obtain ⟨rfl, -⟩ := List.cons_eq_cons.1 he
      exact .inl h
    · obtain ⟨rfl, rfl⟩ := List.cons_eq_cons.1 he
      exact .inr ⟨earlier, b, later, rfl, h⟩
  · rintro (h | ⟨earlier, b, later, rfl, h⟩)
    · exact ⟨[], a, l, rfl, h⟩
    · exact ⟨a :: earlier, b, later, rfl, h⟩

/-- The shapes seen are those of the declarations before, each with the line of the first. -/
def Seen.Records (file : SourceFile) (seen : Seen) (before : List Node) : Prop :=
  ∀ shape, (seen.find? (·.1 == shape)).map (·.2) =
    (before.find? (ofDeclaration file · == shape)).map fun first => (file.location first).line

namespace Seen.Records

variable {seen : Seen} {before : List Node} {n first : Node}

/-- A shape that came before is not recorded again. -/
theorem again (h : seen.Records file before) (hfirst : sameShape? file n before = some first) :
    seen.Records file (before ++ [n]) := by
  intro shape
  rw [h shape, List.find?_append]
  by_cases hshape : ofDeclaration file n = shape
  · subst hshape
    rw [← sameShape?, hfirst, Option.some_or]
  · simp [hshape]

theorem fresh (h : seen.Records file before) (hfirst : sameShape? file n before = none) :
    Seen.Records file ((ofDeclaration file n, (file.location n).line) :: seen) (before ++ [n]) := by
  intro shape
  rw [List.find?_append, List.find?_cons]
  by_cases hshape : ofDeclaration file n = shape
  · subst hshape
    rw [← sameShape?, hfirst]
    simp
  · have hne : (ofDeclaration file n == shape) = false := beq_eq_false_iff_ne.2 hshape
    simpa [hne] using h shape

end Seen.Records

theorem mem_repeats {seen : Seen} {before ns : List Node} (hseen : seen.Records file before)
    (v : Violation) :
    v ∈ repeats file seen ns ↔ ∃ earlier d later, ns.filter isNamed = earlier ++ d :: later ∧
      ∃ first, sameShape? file d (before ++ earlier) = some first ∧ v = breach file first d := by
  induction ns generalizing seen before with
  | nil => simp [repeats]
  | cons n ns ih =>
    cases hname : n.child? .name with
    | none =>
      rw [repeats, hname, List.filter_cons_of_neg (by simp [isNamed, hname])]
      exact ih hseen
    | some name =>
      rw [repeats, hname, List.filter_cons_of_pos (by simp [isNamed, hname]), exists_split_cons]
      have hshape := hseen (ofDeclaration file n)
      have hstep {seen : Seen} (hnext : seen.Records file (before ++ [n])) :
          v ∈ repeats file seen ns ↔ ∃ earlier d later, ns.filter isNamed = earlier ++ d :: later ∧
            ∃ first, sameShape? file d (before ++ n :: earlier) = some first ∧
            v = breach file first d := by
        simpa only [List.append_assoc, List.singleton_append] using ih hnext
      rw [← sameShape?] at hshape
      rw [List.append_nil]
      cases hfirst : sameShape? file n before with
      | some first =>
        obtain ⟨⟨shape, line⟩, hfound, rfl⟩ :=
          Option.map_eq_some_iff.1 (hshape.trans (by rw [hfirst, Option.map_some]))
        simp only [hfound, List.mem_cons, hstep (hseen.again hfirst)]
        simp [breach, hname]
      | none =>
        have hfound := Option.map_eq_none_iff.1 (hshape.trans (by rw [hfirst, Option.map_none]))
        simp only [hfound, hstep (hseen.fresh hfirst)]
        simp

variable (file)

/-- The declarations of types that have a name. -/
def declarations : List Node := (file.root.preorder.filter isDeclaration).filter isNamed

theorem mem_check (v : Violation) : v ∈ check file ↔
    ∃ earlier d later, declarations file = earlier ++ d :: later ∧
    ∃ first, sameShape? file d earlier = some first ∧ v = breach file first d := by
  have hempty : Seen.Records file [] [] := fun _ => rfl
  exact mem_repeats hempty v

theorem normalize_of_sameShape? {first d : Node} {ds : List Node}
    (h : sameShape? file d ds = some first) :
    normalize (written file first) = normalize (written file d) := by
  have hshape := List.find?_some h
  rwa [beq_iff_eq, ofDeclaration_eq_normalize, ofDeclaration_eq_normalize] at hshape

/-- A declaration is reported as identical to the first one before it that has its shape. Apart from
their names the two then have the same tokens, as long as their literals stay apart in shapes. -/
theorem check_identical_tokens (v : Violation) : v ∈ check file ↔
    ∃ earlier d later first, declarations file = earlier ++ d :: later ∧
      sameShape? file d earlier = some first ∧
      v = breach file first d ∧ ∀ ts us, tokens? (written file first) = some ts →
        tokens? (written file d) = some us → ToldApart ts us → ts = us := by
  constructor
  · intro hv
    obtain ⟨earlier, d, later, hsplit, first, hfirst, rfl⟩ := (mem_check file v).1 hv
    refine ⟨earlier, d, later, first, hsplit, hfirst, rfl, ?_⟩
    intro ts us hts hus htold
    exact tokens_eq_of_normalize_eq (normalize_of_sameShape? file hfirst) hts hus htold
  · rintro ⟨earlier, d, later, first, hsplit, hfirst, rfl, -⟩
    exact (mem_check file _).2 ⟨earlier, d, later, hsplit, first, hfirst, rfl⟩

def twoLayouts : String :=
  "interface A \x7b x: \x27a, b\x27; f: () => T \x7d\ntype B = \x7b\n  x: \x27a, b\x27, // x\n  f: () => T,\n\x7d;"

def layoutTokens : List (List Char) :=
  ["\x7b", "x", ":", "\x27a, b\x27", "f", ":", "(", ")", "=>", "T", "\x7d"].map String.toList

theorem check_twoLayouts : ∃ file, SourceFile.parse ⟨"a.ts"⟩ twoLayouts = .ok file ∧
    ∃ first d ts us, breach file first d ∈ check file ∧ tokens? (written file first) = some ts ∧
      tokens? (written file d) = some us ∧ ToldApart ts us ∧ ts = us := by
  have hrun : (SourceFile.parse ⟨"a.ts"⟩ twoLayouts).toOption.any (fun file =>
      check file ≠ [] ∧ ∀ d ∈ declarations file, tokens? (written file d) =
        some layoutTokens) = true := by
    decide +kernel
  have htold : ToldApart layoutTokens layoutTokens := ⟨by decide, by decide⟩
  obtain ⟨file, hfile, h⟩ := exists_ok_of_any hrun
  obtain ⟨hcheck, htokens⟩ := of_decide_eq_true h
  obtain ⟨v, hv⟩ := List.exists_mem_of_ne_nil _ hcheck
  obtain ⟨earlier, d, later, first, hsplit, hfirst, rfl, hsame⟩ :=
    (check_identical_tokens file v).1 hv
  have hearlier : first ∈ earlier := List.mem_of_find?_eq_some hfirst
  have hts := htokens first (by simp [hsplit, hearlier])
  have hus := htokens d (by simp [hsplit])
  exact ⟨file, hfile, first, d, _, _, hv, hts, hus, htold, hsame _ _ hts hus htold⟩

/-- Two strings that differ behind what would open a comment elsewhere. -/
def differingStrings : String := "type A = \"http://a\";\ntype B = \"http://b\";"

theorem check_differingStrings : ∃ file, SourceFile.parse ⟨"a.ts"⟩ differingStrings = .ok file ∧
    (check file).map (·.message) = ["Type \"B\" is identical to type at line 1"] ∧
    (declarations file).map (fun d => tokens? (written file d)) =
      [some ["\"http://a\"".toList], some ["\"http://b\"".toList]] := by
  have hrun : (SourceFile.parse ⟨"a.ts"⟩ differingStrings).toOption.any (fun file =>
      (check file).map (·.message) = ["Type \"B\" is identical to type at line 1"] ∧
        (declarations file).map (fun d => tokens? (written file d)) =
          [some ["\"http://a\"".toList], some ["\"http://b\"".toList]]) = true := by
    decide +kernel
  obtain ⟨file, hfile, h⟩ := exists_ok_of_any hrun
  exact ⟨file, hfile, of_decide_eq_true h⟩

end QualityGate.TypeShape
