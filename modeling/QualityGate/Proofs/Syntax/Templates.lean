import QualityGate.Syntax.Literals
import QualityGate.Syntax.Node.Cursor
import QualityGate.Proofs.Syntax.Places
import QualityGate.Proofs.Violation

/-!
What literals say. A string says what stands between its quotes. The substitutions of a template cut
the text between its quotes into fragments, one more than there are substitutions. The value of the
template has the same fragments, and between every two of them the placeholder where the text has a
substitution.
-/
namespace QualityGate.Syntax

open Node

variable {holes : List Node} {hole : Node} {left right : ℕ}

/-- Nodes between two offsets, one behind the other. They may touch, and may be empty. -/
structure SideBySide (left right : ℕ) (holes : List Node) : Prop where
  within : ∀ hole ∈ holes, left ≤ hole.start ∧ hole.start ≤ hole.stop ∧ hole.stop ≤ right
  apart : holes.Pairwise fun hole later => hole.stop ≤ later.start

theorem SideBySide.tail (h : SideBySide left right (hole :: holes)) :
    SideBySide hole.stop right holes where
  within := by
    intro later hlater
    obtain ⟨-, hspan, hright⟩ := h.within later (List.mem_cons_of_mem _ hlater)
    exact ⟨List.rel_of_pairwise_cons h.apart hlater, hspan, hright⟩
  apart := h.apart.of_cons

instance : Decidable (SideBySide left right holes) :=
  decidable_of_iff ((∀ hole ∈ holes, left ≤ hole.start ∧ hole.start ≤ hole.stop ∧
    hole.stop ≤ right) ∧
    holes.Pairwise fun hole later => hole.stop ≤
      later.start) ⟨fun h => ⟨h.1, h.2⟩, fun h => ⟨h.within, h.apart⟩⟩

/-- The fragments of a text with a piece between every two of them. -/
def alternate : List (List Char) → List (List Char) → List Char
  | fragment :: fragments, piece :: pieces => fragment ++ piece ++ alternate fragments pieces
  | fragments, _ => fragments.flatten

def Node.substitutions (n : Node) : List Node := n.parts.filter (·.kind = .templateSubstitution)

namespace SourceFile

variable (file : SourceFile)

theorem slice_append_slice {middle : ℕ} (hl : left ≤ middle) (hr : middle ≤ right) :
    file.slice left middle ++ file.slice middle right = file.slice left right := by
  rw [slice, slice, slice, ← Array.toList_append, Array.extract_append_extract, min_eq_left hl,
    max_eq_right hr]

theorem toList_textOf (n : Node) : (file.textOf n).toList = file.slice n.start n.stop := by
  rw [textOf, String.toList_ofList, slice]

/-- What is between two offsets in front of, between and behind the holes there. -/
def fragments (left right : ℕ) (holes : List Node) : List (List Char) :=
  List.zipWith file.slice (left :: holes.map (·.stop)) (holes.map (·.start) ++ [right])

theorem fragments_nil : file.fragments left right [] = [file.slice left right] := rfl

theorem fragments_cons : file.fragments left right (hole :: holes) =
    file.slice left hole.start :: file.fragments hole.stop right holes := rfl

theorem length_fragments : (file.fragments left right holes).length = holes.length + 1 := by
  simp [fragments]

/-- The fragments with the texts of the holes are the whole text. -/
theorem alternate_texts (h : SideBySide left right holes) :
    alternate (file.fragments left right holes) (holes.map fun hole => (file.textOf hole).toList) =
      file.slice left right := by
  induction holes generalizing left with
  | nil => simp [fragments_nil, alternate]
  | cons hole holes ih =>
    obtain ⟨hleft, hspan, hright⟩ := h.within hole List.mem_cons_self
    rw [fragments_cons, List.map_cons, alternate, ih h.tail, toList_textOf,
      slice_append_slice file hleft hspan, slice_append_slice file (hleft.trans hspan) hright]

/-- From any hole on, the text is filled with what is between the cursor and the hole, the
placeholder, and what comes behind the hole. -/
theorem fill_eq (placeholder : List Char) (right : ℕ) (holes : List Node) (left : ℕ) :
    file.fill placeholder right left holes =
      alternate (file.fragments left right holes) (holes.map fun _ => placeholder) := by
  induction holes generalizing left with
  | nil => simp [fill, fragments_nil, alternate]
  | cons hole holes ih => rw [fill, ih, fragments_cons, List.map_cons, alternate]

/-- The text of a template between its quotes, cut by its substitutions. -/
def templateFragments (n : Node) : List (List Char) :=
  file.fragments (n.start + 1) (n.stop - 1) n.substitutions

theorem templateValue?_eq {n : Node} (hkind : n.kind = .templateString) (placeholder : String) :
    file.templateValue? n placeholder = some (String.ofList
      (alternate (file.templateFragments n) (n.substitutions.map
        fun _ => placeholder.toList))) := by
  rw [templateValue?, if_pos hkind, fill_eq, templateFragments, substitutions]

theorem drop_dropLast_slice (hright : right ≤ file.text.size) :
    ((file.slice left right).drop 1).dropLast = file.slice (left + 1) (right - 1) := by
  simp only [slice, Array.toList_extract, List.extract_eq_take_drop, List.dropLast_eq_take,
    List.drop_take, List.drop_drop, List.take_take, List.length_take, List.length_drop,
    Array.length_toList]
  congr 1
  omega

theorem stringValue?_eq {n : Node} (hkind : n.kind = .string) (hstop : n.stop ≤ file.text.size) :
    file.stringValue? n = some (String.ofList (file.slice (n.start + 1) (n.stop - 1))) := by
  rw [stringValue?, if_pos hkind, drop_dropLast_slice file hstop]

/-- What a literal of the source says: a string the text between its quotes, and a template its
fragments with three points in braces between them. -/
inductive Says (n : Node) : List Char → Prop
  | string (hkind : n.kind = .string) : Says n (file.slice (n.start + 1) (n.stop - 1))
  | template (hkind : n.kind = .templateString) : Says n
      (alternate (file.templateFragments n) (n.substitutions.map
        fun _ => ['$', '\x7b', '.', '.', '.', '\x7d']))

/-- Strings and templates have a value, and nothing else has one. -/
theorem literalValue?_eq_some_iff {n : Node} (hstop : n.stop ≤ file.text.size) {value : String} :
    file.literalValue? n = some value ↔ file.Says n value.toList := by
  have hspelled (said : List Char) : String.ofList said = value ↔ value.toList = said := by
    rw [← String.toList_inj, String.toList_ofList, eq_comm]
  constructor
  · intro h
    rcases (Option.orElse_eq_some ..).1 h with hstring | ⟨-, htemplate⟩
    · have hkind : n.kind = .string := by
        by_contra hkind
        simp [stringValue?, hkind] at hstring
      rw [stringValue?_eq file hkind hstop, Option.some_inj, hspelled] at hstring
      exact hstring ▸ .string hkind
    · have hkind : n.kind = .templateString := by
        by_contra hkind
        simp [templateValue?, hkind] at htemplate
      rw [templateValue?_eq file hkind, Option.some_inj, hspelled] at htemplate
      exact htemplate ▸ .template hkind
  · intro h
    generalize hsaid : value.toList = said at h
    cases h with
    | string hkind => simp [literalValue?, stringValue?_eq file hkind hstop, (hspelled _).2 hsaid]
    | template hkind =>
      have hstring : file.stringValue? n = none := by simp [stringValue?, hkind]
      have htemplate : file.templateValue? n "$\x7b...\x7d" = some value :=
        (file.templateValue?_eq hkind _).trans (congrArg some ((hspelled _).2 hsaid))
      simp [literalValue?, hstring, htemplate]

/-- A template with its substitutions side by side between its quotes has one fragment more than
substitutions. The fragments with the texts of the substitutions are the text between the quotes,
and with a placeholder for each substitution they are the value of the template. Without
substitutions that is the text itself. -/
theorem templateValue?_eq_alternate (n : Node) (hkind : n.kind = .templateString)
    (h : SideBySide (n.start + 1) (n.stop - 1) n.substitutions) :
    (file.templateFragments n).length = n.substitutions.length + 1 ∧
      alternate (file.templateFragments n) (n.substitutions.map fun s => (file.textOf s).toList) =
        file.slice (n.start + 1) (n.stop - 1) ∧
      (∀ placeholder, file.templateValue? n placeholder =
        some (String.ofList (alternate (file.templateFragments n) (n.substitutions.map
          fun _ => placeholder.toList)))) ∧
      (n.substitutions = [] → ∀ placeholder,
        file.templateValue? n placeholder =
          some (String.ofList (file.slice (n.start + 1) (n.stop - 1)))) := by
  have hvalue := file.templateValue?_eq hkind
  have htexts := file.alternate_texts h
  refine ⟨file.length_fragments, htexts, hvalue, fun hnone placeholder => ?_⟩
  rw [hnone, List.map_nil] at htexts
  rw [hvalue, hnone, List.map_nil, templateFragments, hnone, htexts]

def nestedTemplate : String := "f(`ä$\x7bx\x7d$\x7b`n$\x7by\x7d`\x7d-`)"

theorem templateValue?_nestedTemplate :
    ∃ file, SourceFile.parse ⟨"a.ts"⟩ nestedTemplate = .ok file ∧
    ∃ n ∈ file.root.preorder, n.kind = .templateString ∧
      SideBySide (n.start + 1) (n.stop - 1) n.substitutions ∧
      file.templateFragments n = [['ä'], [], ['-']] ∧
      file.templateValue? n "#" =
        some (String.ofList (alternate [['ä'], [], ['-']] [['#'], ['#']])) ∧
      file.templateValue? n "#" = some "ä##-" := by
  have hrun : (SourceFile.parse ⟨"a.ts"⟩ nestedTemplate).toOption.any (fun file : SourceFile =>
      ∃ n ∈ file.root.preorder, n.kind = .templateString ∧
        SideBySide (n.start + 1) (n.stop - 1) n.substitutions ∧ n.substitutions.length = 2 ∧
        file.templateFragments n = [['ä'], [], ['-']]) = true := by
    decide +kernel
  obtain ⟨file, hfile, h⟩ := exists_ok_of_any hrun
  obtain ⟨n, hn, hkind, hholes, hlength, hfragments⟩ := of_decide_eq_true h
  have hvalue := (file.templateValue?_eq_alternate n hkind hholes).2.2.1 "#"
  rw [List.map_const'] at hvalue
  rw [hlength, hfragments] at hvalue
  exact ⟨file, hfile, n, hn, hkind, hholes, hfragments, hvalue, hvalue⟩

end SourceFile
end QualityGate.Syntax
