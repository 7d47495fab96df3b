import QualityGate.Syntax.Parser

/-!
How far the scanner reads. A token and the blanks in front of it lie in the text, so a cursor stays
in its text where it moves forward.
-/
namespace QualityGate.Syntax

namespace Token

variable {p : Char → Bool} {cs : List Char} {quote : Char} {skip n : Nat}

theorem run_le (p : Char → Bool) (cs : List Char) : run p cs ≤ cs.length :=
  (List.takeWhile_sublist p).length_le

theorem drop_ne_nil {n : Nat} {c : Char} (h : (cs.drop n).head? = some c) : n < cs.length := by
  refine Nat.lt_of_not_le fun hle => ?_
  simp [List.drop_eq_nil_of_le hle] at h

theorem stringLength_le (h : stringLength quote skip cs = some n) : n ≤ cs.length := by
  fun_induction stringLength quote skip cs generalizing n <;> grind [Option.map_eq_some_iff]

theorem nameLength_le (skip : Nat) (cs : List Char) : nameLength skip cs ≤ cs.length := by
  fun_induction nameLength skip cs <;> grind

theorem digitsLength_le (p : Char → Bool) (cs : List Char) : digitsLength p cs ≤ cs.length := by
  fun_induction digitsLength p cs <;> grind

theorem exponentLength_le (cs : List Char) : exponentLength cs ≤ cs.length := by
  fun_cases exponentLength cs <;> grind [exponentLength, digitsLength_le]

theorem bigSuffix_le (cs : List Char) : bigSuffix cs ≤ cs.length := by
  fun_cases bigSuffix cs <;> grind [bigSuffix]

theorem decimal_le (cs : List Char) : numberLength.decimal cs ≤ cs.length := by
  have hn := digitsLength_le Char.isDigit cs
  have hlength : (cs.drop (digitsLength Char.isDigit cs)).length =
    cs.length - digitsLength Char.isDigit cs := List.length_drop
  fun_cases numberLength.decimal cs <;>
    grind [numberLength.decimal, digitsLength_le, exponentLength_le]

theorem numberLength_le (cs : List Char) : numberLength cs ≤ cs.length := by
  fun_cases numberLength cs <;> grind [numberLength, decimal_le, digitsLength_le, bigSuffix_le]

theorem scan_le (cs : List Char) : (scan cs).2 ≤ cs.length := by
  have hone (c : Char) (cs : List Char) : 1 ≤ (c :: cs).length := Nat.succ_pos _
  fun_cases scan cs with
  | case1 => exact Nat.le_refl 0
  | case2 c cs => exact nameLength_le 0 (c :: cs)
  | case3 c cs => exact numberLength_le (c :: cs)
  | case4 c cs _ _ _ n hn => exact Nat.succ_le_succ (stringLength_le hn)
  | case7 cs => exact Nat.succ_le_succ (nameLength_le 0 cs)
  | case10 c cs _ _ _ _ _ _ m hm =>
    have hstart := List.find?_some hm
    exact (List.isPrefixOf_iff_prefix.1 hstart).length_le
  | _ => exact hone _ _

end Token

namespace Trivia

/-- What is skipped is a piece of the text, and what is left stands behind it. -/
def Skips (n : Nat) (cs : List Char) (t : Trivia) : Prop :=
  ∃ front, cs = front ++ t.rest ∧ t.size = n + front.length

variable {n : Nat} {cs : List Char} {t : Trivia}

theorem Skips.cons (c : Char) (h : Skips (n + 1) cs t) : Skips n (c :: cs) t := by
  obtain ⟨front, hcs, hsize⟩ := h
  refine ⟨c :: front, by rw [List.cons_append, ← hcs], ?_⟩
  rw [hsize, List.length_cons]
  omega

theorem skips_skip (mode : Mode) (n : Nat) (newline : Bool) (cs : List Char) :
    Skips n cs (skip mode n newline cs) := by
  fun_induction skip mode n newline cs with
  | case1 n newline cs ih => exact (ih.cons '/').cons '/'
  | case2 n newline cs ih => exact (ih.cons '*').cons '/'
  | case3 n newline c cs _ _ _ ih => exact ih.cons c
  | case4 n newline c cs => exact ⟨[], rfl, rfl⟩
  | case5 n newline c cs _ ih => exact ih.cons c
  | case6 n newline c cs _ ih => exact ih.cons c
  | case7 n newline cs ih => exact (ih.cons '/').cons '*'
  | case8 n newline c cs _ ih => exact ih.cons c
  | case9 n newline => exact ⟨[], rfl, rfl⟩
  | case10 mode n newline => exact ⟨[], rfl, rfl⟩

end Trivia

/-- A cursor that stands in a text, with the next token in front of it. -/
structure Cursor.At (text : List Char) (c : Cursor) : Prop where
  gap : c.gap = text.drop c.behind
  here : c.here = text.drop c.start
  behind_le : c.behind ≤ c.start
  stop_le : c.start + c.size ≤ text.length

namespace Cursor

variable {text : List Char} {c : Cursor}

theorem at_after {gap : List Char} {behind : Nat} (hgap : gap = text.drop behind)
    (hle : behind ≤ text.length) (furthest : Nat) (closed : Bool) :
    (after gap behind furthest closed).At text := by
  obtain ⟨front, hfront, hsize⟩ := Trivia.skips_skip .code 0 false gap
  rw [Nat.zero_add] at hsize
  have hrest : (Trivia.skip .code 0 false gap).rest =
      text.drop (behind + (Trivia.skip .code 0 false gap).size) := by
    rw [hsize, ← List.drop_drop, ← hgap]
    exact (List.drop_left' rfl ▸ congrArg (List.drop front.length) hfront).symm
  have hsizeLe : (after gap behind furthest closed).size ≤
      (Trivia.skip .code 0 false gap).rest.length := by
    simp only [after]
    split
    · exact Token.scan_le _
    · exact Nat.zero_le _
  have hlength := congrArg List.length hfront
  rw [List.length_append, congrArg List.length hgap, List.length_drop] at hlength
  refine ⟨hgap, hrest, Nat.le_add_right _ _, ?_⟩
  have hstart : (after gap behind furthest closed).start =
    behind + (Trivia.skip .code 0 false gap).size := rfl
  omega

theorem at_ofText (text : List Char) : (ofText text).At text :=
  at_after rfl (Nat.zero_le _) 0 false

variable (h : c.At text)
include h

theorem At.start_le : c.start ≤ text.length := by
  have := h.stop_le
  omega

theorem At.take {n : Nat} (hn : n ≤ c.here.length) : (c.take n).At text := by
  have hlength : c.here.length = text.length - c.start := by rw [h.here, List.length_drop]
  have := h.start_le
  refine at_after ?_ (by omega) _ _
  rw [h.here, List.drop_drop]

theorem At.takeRaw {n : Nat} (hn : n ≤ c.gap.length) : (c.takeRaw n).At text := by
  have hlength : c.gap.length = text.length - c.behind := by rw [h.gap, List.length_drop]
  have hbehind := h.behind_le
  have := h.start_le
  refine at_after ?_ (by omega) _ _
  rw [h.gap, List.drop_drop]

theorem At.size_le : c.size ≤ c.here.length := by
  have := h.stop_le
  rw [h.here, List.length_drop]
  omega

theorem At.withFurthest (n : Nat) : At text { c with furthest := n } := { h with }

end Cursor
end QualityGate.Syntax
