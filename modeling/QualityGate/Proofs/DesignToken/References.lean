import QualityGate.DesignToken
import QualityGate.Proofs.Syntax.Cursor
import Mathlib.Data.List.TakeWhile
import Mathlib.Data.Option.Basic

/-!
References to tokens. A file refers to a token by an access to one of the objects that hold the
tokens, by a variable of a style sheet that is named in a string, or by an import. Names of
variables are read from left to right, each up to the next closing parenthesis.
-/
namespace QualityGate

open Syntax Node

namespace Color

/-- The text begins with a reference to the variable, and goes on with `rest`. -/
def Reference (name rest cs : List Char) : Prop :=
  name ≠ [] ∧ ')' ∉ name ∧ cs = "var(--".toList ++ (name ++ ')' :: rest)

/-- A reader that goes over the text, from each reference on behind its end, comes upon a reference
to the variable. -/
inductive Mentions (name : List Char) : List Char → Prop
  | here {rest cs : List Char} (h : Reference name rest cs) : Mentions name cs
  | behind {other rest cs : List Char} (h : Reference other rest cs) (later : Mentions name rest) :
    Mentions name cs
  | further {c : Char} {cs : List Char} (none : ∀ other rest, ¬ Reference other rest (c :: cs))
      (later : Mentions name cs) : Mentions name (c :: cs)

variable {name other rest cs : List Char} {c : Char}

theorem after?_eq_some_iff {part : List Char} :
    Text.after? part cs = some rest ↔ cs = part ++ rest := by
  induction part generalizing cs with
  | nil => simp [Text.after?, eq_comm]
  | cons p part ih =>
    cases cs with
    | nil => simp [Text.after?]
    | cons c cs => by_cases hp : p = c <;> simp [Text.after?, hp, ih, eq_comm]

theorem variableNames_drop (skip : Nat) (cs : List Char) :
    variableNames skip cs = variableNames 0 (cs.drop skip) := by
  induction skip generalizing cs with
  | zero => rw [List.drop_zero]
  | succ skip ih =>
    cases cs with
    | nil => simp [variableNames]
    | cons c cs => rw [variableNames, ih, List.drop_succ_cons]

theorem takeWhile_open (h : ')' ∉ name) (rest : List Char) :
    (name ++ ')' :: rest).takeWhile (· != ')') = name := by
  rw [List.takeWhile_append_of_pos fun c hc => by simpa using ne_of_mem_of_not_mem hc h]
  simp

theorem variableNames_of_reference (h : Reference name rest cs) :
    variableNames 0 cs = name :: variableNames 0 rest := by
  obtain ⟨hne, hopen, rfl⟩ := h
  have hafter : Text.after? "var(--".toList ("var(--".toList ++ (name ++ ')' :: rest)) =
      some (name ++ ')' :: rest) := after?_eq_some_iff.2 rfl
  have hcons : "var(--".toList ++ (name ++ ')' :: rest) =
    'v' :: ("ar(--".toList ++ (name ++ ')' :: rest)) := rfl
  rw [hcons] at hafter ⊢
  rw [variableNames, hafter]
  simp [takeWhile_open hopen, hne, variableNames_drop (name.length + 6)]

theorem variableNames_of_none (h : ∀ other rest, ¬ Reference other rest (c :: cs)) :
    variableNames 0 (c :: cs) = variableNames 0 cs := by
  rw [variableNames]
  split
  · rfl
  · next inner hafter =>
    -- Without a name or without an end there is no reference.
    have hsplit := List.takeWhile_append_dropWhile (p := (· != ')')) (l := inner)
    refine if_pos ?_
    by_contra hcounts
    simp only [Bool.or_eq_true, List.isEmpty_iff, decide_eq_true_eq, not_or] at hcounts
    obtain ⟨hne, hlength⟩ := hcounts
    cases hend : inner.dropWhile (· != ')') with
    | nil => exact hlength (congrArg List.length (by simpa [hend] using hsplit))
    | cons d rest =>
      obtain rfl : d = ')' := by simpa [hend] using List.head?_dropWhile_not (· != ')') inner
      refine h (inner.takeWhile (· != ')')) rest ⟨hne, fun hmem => ?_, ?_⟩
      · simpa using List.mem_takeWhile_imp hmem
      · rw [← hend, hsplit]
        exact after?_eq_some_iff.1 hafter

theorem mem_variableNames : name ∈ variableNames 0 cs ↔ Mentions name cs := by
  constructor
  · induction hlength : cs.length using Nat.strongRecOn generalizing cs with
    | ind n ih =>
      cases cs with
      | nil => simp [variableNames]
      | cons c cs =>
        rw [List.length_cons] at hlength
        intro hmem
        by_cases hnone : ∀ other rest, ¬ Reference other rest (c :: cs)
        · rw [variableNames_of_none hnone] at hmem
          exact .further hnone (ih cs.length (by omega) rfl hmem)
        · simp only [not_forall, not_not] at hnone
          obtain ⟨other, rest, href⟩ := hnone
          rw [variableNames_of_reference href, List.mem_cons] at hmem
          rcases hmem with rfl | hmem
          · exact .here href
          · have hshorter := congrArg List.length href.2.2
            simp only [List.length_cons, List.length_append] at hshorter
            exact .behind href (ih rest.length (by omega) rfl hmem)
  · intro h
    induction h with
    | here h => exact variableNames_of_reference h ▸ List.mem_cons_self
    | behind h _ ih => exact variableNames_of_reference h ▸ List.mem_cons_of_mem _ ih
    | further h _ ih => exact variableNames_of_none h ▸ ih

end Color

namespace DesignToken

def IsTokenAccess (file : SourceFile) (n : Node) : Prop :=
  ∃ object ∈ n.child? .object, object.kind = .identifier ∧ file.textOf object ∈ Tables.tokenObjects

/-- A file refers to the token `name`. -/
inductive Refers (file : SourceFile) (name : String) : Prop
  /-- As in `tokens.name`. -/
  | member {p : Place} (hp : p ∈ places [] file.root) (haccess : IsTokenAccess file p.node)
      (hkind : p.node.kind = .memberExpression)
      (hname : (p.node.child? .property).map file.textOf = some name)
  /-- As in `tokens['name']`. -/
  | index {p : Place} (hp : p ∈ places [] file.root) (haccess : IsTokenAccess file p.node)
      (hkind : p.node.kind = .subscriptExpression)
      (hname : (p.node.child? .index).bind file.stringValue? = some name)
  /-- As in `'var(--kebab)'`, whose form in camel case is the name. -/
  | variable {p : Place} (hp : p ∈ places [] file.root) {value : String} {kebab : List Char}
      (hvalue : file.stringValue? p.node = some value) (hkebab : Color.Mentions kebab value.toList)
      (hname : String.ofList (camelCase false kebab) = name)
  /-- By an import of the name, or as the name. -/
  | imported {i : Import} (hi : i ∈ Import.ofFile file) {b : ImportBinding} (hb : b ∈ i.bindings)
      (hname : b.imported = name ∨ b.bound = name)

variable {file : SourceFile} {n : Node} {name : String}

theorem accessed?_eq_some_iff : accessed? file n = some name ↔ IsTokenAccess file n ∧
    (n.kind = .memberExpression ∧ (n.child? .property).map file.textOf = some name ∨
      n.kind = .subscriptExpression ∧ (n.child? .index).bind file.stringValue? = some name) := by
  unfold accessed? IsTokenAccess
  cases n.child? .object with
  | none => simp
  | some object =>
    simp only [Option.bind_eq_bind, Option.bind_some, guard, Bool.and_eq_true, decide_eq_true_eq,
      List.contains_iff_mem, Option.mem_def, Option.some.injEq, exists_eq_left']
    split_ifs with hobject
    · cases n.kind <;> simp [hobject]
    · simp [hobject, failure]

theorem refers_of_mem_usedAt {p : Place} (hp : p ∈ places [] file.root)
    (h : name ∈ usedAt file p.node) :
    Refers file name := by
  rcases List.mem_append.1 h with h | h
  · obtain ⟨haccess, ⟨hkind, hname⟩ | ⟨hkind, hname⟩⟩ :=
      accessed?_eq_some_iff.1 (Option.mem_toList.1 h)
    · exact .member hp haccess hkind hname
    · exact .index hp haccess hkind hname
  · split at h
    · next value hvalue =>
      obtain ⟨kebab, hkebab, hname⟩ := List.mem_map.1 h
      exact .variable hp hvalue (Color.mem_variableNames.1 hkebab) hname
    · contradiction

theorem mem_usedIn_of_place {p : Place} (hp : p ∈ places [] file.root)
    (h : name ∈ usedAt file p.node) :
    name ∈ usedIn file := by
  refine List.mem_append_left _ (List.mem_flatMap.2 ⟨p.node, ?_, h⟩)
  rw [preorder_eq]
  exact List.mem_map_of_mem hp

theorem mem_usedIn : name ∈ usedIn file ↔ Refers file name := by
  constructor
  · intro h
    rcases List.mem_append.1 h with h | h
    · obtain ⟨n, hn, h⟩ := List.mem_flatMap.1 h
      rw [preorder_eq] at hn
      obtain ⟨p, hp, rfl⟩ := List.mem_map.1 hn
      exact refers_of_mem_usedAt hp h
    · obtain ⟨b, hb, h⟩ := List.mem_flatMap.1 h
      obtain ⟨i, hi, hb⟩ := List.mem_flatMap.1 hb
      exact .imported hi hb (by simpa [eq_comm] using h)
  · rintro (⟨hp, haccess, hkind, hname⟩ | ⟨hp, haccess, hkind, hname⟩ |
      ⟨hp, hvalue, hkebab, hname⟩ | ⟨hi, hb, hname⟩)
    · refine mem_usedIn_of_place hp (List.mem_append_left _ (Option.mem_toList.2 ?_))
      exact accessed?_eq_some_iff.2 ⟨haccess, .inl ⟨hkind, hname⟩⟩
    · refine mem_usedIn_of_place hp (List.mem_append_left _ (Option.mem_toList.2 ?_))
      exact accessed?_eq_some_iff.2 ⟨haccess, .inr ⟨hkind, hname⟩⟩
    · refine mem_usedIn_of_place hp (List.mem_append_right _ ?_)
      rw [hvalue]
      exact List.mem_map.2 ⟨_, Color.mem_variableNames.2 hkebab, hname⟩
    · refine List.mem_append_right _ (List.mem_flatMap.2 ⟨_, List.mem_flatMap.2 ⟨_, hi, hb⟩, ?_⟩)
      simpa [eq_comm] using hname

instance (file : SourceFile) (name : String) : Decidable (Refers file name) :=
  decidable_of_iff (name ∈ usedIn file) mem_usedIn

end DesignToken
end QualityGate
