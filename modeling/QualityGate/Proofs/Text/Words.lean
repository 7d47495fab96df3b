import QualityGate.Text.Blank
import Mathlib.Data.List.Infix
import Mathlib.Tactic.SplitIfs

/-!
Words and the blanks between them. Any run of blanks divides words as one blank does.
-/
namespace QualityGate.Text

variable {cs xs ys w : List Char} {b : Char}

@[simp] theorem isBlank_space : isBlank ' ' = true := by decide

theorem modifyHead_nil_append (pieces : List (List Char)) :
    pieces.modifyHead ([] ++ ·) = pieces := by
  cases pieces <;> rfl

theorem words_go_eq (held cs : List Char) : words.go held cs =
    ((cs.splitOnP isBlank).modifyHead (held.reverse ++ ·)).filter (· ≠ []) := by
  induction cs generalizing held with
  | nil => cases held <;> simp [words.go]
  | cons c cs ih =>
    rw [words.go, List.splitOnP_cons_eq_if_modifyHead]
    split_ifs with hblank hheld
    · rw [ih, List.isEmpty_iff.1 hheld, List.reverse_nil, modifyHead_nil_append]
      simp
    · rw [ih, List.reverse_nil, modifyHead_nil_append, List.modifyHead_cons, List.append_nil,
        List.filter_cons_of_pos (by simpa using hheld)]
    · rw [ih, List.modifyHead_modifyHead]
      congr
      funext piece
      simp

/-- Words are the pieces between single blanks that are not empty. -/
theorem words_eq (cs : List Char) : words cs = (cs.splitOnP isBlank).filter (· ≠ []) := by
  rw [words, words_go_eq, List.reverse_nil, modifyHead_nil_append]

theorem not_isBlank_of_mem_words_go {held : List Char} (hheld : ∀ c ∈ held, isBlank c = false)
    (h : w ∈ words.go held cs) : w ≠ [] ∧ ∀ c ∈ w, isBlank c = false := by
  induction cs generalizing held with
  | nil =>
    rw [words.go] at h
    split_ifs at h with hempty
    · cases h
    · obtain rfl := List.mem_singleton.1 h
      simpa using ⟨List.isEmpty_iff.not.1 hempty, hheld⟩
  | cons c cs ih =>
    rw [words.go] at h
    split_ifs at h with hblank hempty
    · exact ih (List.forall_mem_nil _) h
    · rcases List.mem_cons.1 h with rfl | h
      · simpa using ⟨List.isEmpty_iff.not.1 hempty, hheld⟩
      · exact ih (List.forall_mem_nil _) h
    · exact ih (List.forall_mem_cons.2 ⟨by simpa using hblank, hheld⟩) h

/-- There is no blank in a word. -/
theorem not_isBlank_of_mem_words (h : w ∈ words cs) : w ≠ [] ∧ ∀ c ∈ w, isBlank c = false :=
  not_isBlank_of_mem_words_go (List.forall_mem_nil _) h

theorem infix_of_mem_words_go {held : List Char} (h : w ∈ words.go held cs) :
    w <:+: held.reverse ++ cs := by
  have hlater {held cs : List Char} {c : Char} (h : w <:+: cs) : w <:+: held.reverse ++ c :: cs :=
    h.trans ⟨held.reverse ++ [c], [], by simp⟩
  induction cs generalizing held with
  | nil =>
    rw [words.go] at h
    split_ifs at h
    · cases h
    · simp_all
  | cons c cs ih =>
    rw [words.go] at h
    split_ifs at h
    · exact hlater (by simpa using ih h)
    · rcases List.mem_cons.1 h with rfl | h
      · exact List.infix_append' [] held.reverse (c :: cs)
      · exact hlater (by simpa using ih h)
    · simpa using ih h

/-- A word stands in the text as it is. -/
theorem infix_of_mem_words (h : w ∈ words cs) : w <:+: cs := infix_of_mem_words_go h

theorem words_cons_blank (hb : isBlank b = true) (cs : List Char) : words (b :: cs) = words cs := by
  simp [words, words.go, hb]

theorem words_go_append {held : List Char} (hw : ∀ c ∈ w, isBlank c = false) :
    words.go held (w ++ cs) = words.go (w.reverse ++ held) cs := by
  induction w generalizing held with
  | nil => rfl
  | cons c w ih =>
    obtain ⟨hc, hw⟩ := List.forall_mem_cons.1 hw
    rw [List.cons_append, words.go, hc, if_neg Bool.false_ne_true, ih hw]
    simp

/-- Characters that are no blanks make a word in front of a blank, or of the end. -/
theorem words_append (hne : w ≠ []) (hw : ∀ c ∈ w, isBlank c = false)
    (hcs : ∀ b ∈ cs.head?, isBlank b = true) :
    words (w ++ cs) = w :: words cs := by
  rw [words, words_go_append hw, List.append_nil]
  cases cs with
  | nil => simp [words.go, words, hne]
  | cons b cs => simp [words.go, words, hcs b rfl, hne]

/-- Two ends of a text that leave it the same words. -/
def SameWords (xs ys : List Char) : Prop := ∀ held, words.go held xs = words.go held ys

namespace SameWords

theorem words_eq (h : SameWords xs ys) : words xs = words ys := h []

theorem trans {zs : List Char} (h : SameWords xs ys) (k : SameWords ys zs) : SameWords xs zs :=
  fun held => (h held).trans (k held)

theorem symm (h : SameWords xs ys) : SameWords ys xs := fun held => (h held).symm

theorem append (h : SameWords xs ys) (cs : List Char) : SameWords (cs ++ xs) (cs ++ ys) := by
  induction cs with
  | nil => exact h
  | cons c cs ih =>
    intro held
    simp only [List.cons_append, words.go, ih _]

/-- One blank is as good as many. -/
theorem blanks {bs : List Char} (hne : bs ≠ []) (hbs : ∀ b ∈ bs, isBlank b = true)
    (cs : List Char) :
    SameWords (bs ++ cs) (' ' :: cs) := by
  intro held
  induction bs generalizing held with
  | nil => exact absurd rfl hne
  | cons b bs ih =>
    obtain ⟨hb, hbs⟩ := List.forall_mem_cons.1 hbs
    have hrest : words.go [] (bs ++ cs) = words.go [] cs := by
      cases bs with
      | nil => rfl
      | cons d ds => simpa [words.go] using ih (List.cons_ne_nil d ds) hbs []
    simp [words.go, hb, hrest]

end SameWords
end QualityGate.Text
