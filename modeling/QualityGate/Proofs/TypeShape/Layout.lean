import QualityGate.Proofs.TypeShape.Pieces
import Mathlib.Data.List.Chain
import Mathlib.Logic.Relation

/-!
Shapes and layout. The shape of a text stays the same when blanks and comments between words are
replaced by others, when one separator takes the place of another or blanks do, and when blanks come
in next to a mark. In a shape nothing is left to be changed: it is its own shape.
-/
namespace QualityGate.TypeShape

open Text

variable {cs xs ys before after gap k w : List Char} {ws : List (List Char)} {c mark : Char}

/-- A whole comment, up to and with the end of its line, or in stars. -/
inductive Comment : List Char → Prop
  | line {cs : List Char} (h : '\n' ∉ cs) : Comment ('/' :: '/' :: cs ++ ['\n'])
  | starred {cs : List Char} (h : ¬ ['*', '/'] <:+: cs) : Comment ('/' :: '*' :: cs ++ ['*', '/'])

/-- A text with all its comments closed and without a slash outside of them. So its end is outside
of comments. -/
inductive Closed : List Char → Prop
  | nil : Closed []
  | cons {c : Char} {cs : List Char} (hc : c ≠ '/') (h : Closed cs) : Closed (c :: cs)
  | comment {k cs : List Char} (hk : Comment k) (h : Closed cs) : Closed (k ++ cs)

/-- One or more blanks and whole comments. -/
inductive Gap : List Char → Prop
  | blank {c : Char} (hc : isBlank c = true) : Gap [c]
  | comment {k : List Char} (hk : Comment k) : Gap k
  | append {xs ys : List Char} (h : Gap xs) (k : Gap ys) : Gap (xs ++ ys)

/-- A change of the layout at a place outside of comments: another gap, another separator or a gap
for one, or a gap that comes in on one side of a mark. -/
inductive Relaid : List Char → List Char → Prop
  | gap {before gap gap' after : List Char} (hbefore : Closed before) (h : Gap gap)
    (h' : Gap gap') :
    Relaid (before ++ (gap ++ after)) (before ++ (gap' ++ after))
  | separator {before after : List Char} {c d : Char} (hbefore : Closed before)
    (hc : isSeparator c = true) (hd : isSeparator d = true) :
      Relaid (before ++ c :: after) (before ++ d :: after)
  | separatorGap {before gap after : List Char} {c : Char} (hbefore : Closed before)
    (hc : isSeparator c = true) (h : Gap gap) :
      Relaid (before ++ c :: after) (before ++ (gap ++ after))
  | beforeMark {before gap after : List Char} {mark : Char} (hbefore : Closed before)
    (hmark : isMark mark = true) (h : Gap gap) :
      Relaid (before ++ mark :: after) (before ++ (gap ++ mark :: after))
  | behindMark {before gap after : List Char} {mark : Char} (hbefore : Closed before)
    (hmark : isMark mark = true) (h : Gap gap) :
      Relaid (before ++ mark :: after) (before ++ mark :: (gap ++ after))

theorem spaced_line (h : '\n' ∉ cs) (rest : List Char) :
    spaced .line (cs ++ '\n' :: rest) = spaced .plain rest := by
  induction cs with
  | nil => rfl
  | cons c cs ih =>
    simp only [List.mem_cons, not_or] at h
    rw [List.cons_append, spaced, if_neg (Ne.symm h.1), ih h.2]

/-- A comment in stars ends with the first star that has a slash behind it. -/
theorem spaced_starred {star : Bool} (h : ¬ ['*', '/'] <:+: cs)
    (hstar : star = true → cs.head? ≠ some '/') (rest : List Char) :
    spaced (.starred star) (cs ++ '*' :: '/' :: rest) = spaced .plain rest := by
  induction cs generalizing star with
  | nil => simp [spaced]
  | cons c cs ih =>
    have hopen : (star && decide (c = '/')) = false := by
      cases star with
      | false => rfl
      | true => simpa using hstar rfl
    rw [List.cons_append, spaced, hopen]
    refine ih (fun hin => h (hin.trans (List.suffix_cons c cs).isInfix)) fun hc hd => h ?_
    rw [decide_eq_true_eq] at hc
    obtain ⟨tail, rfl⟩ := List.head?_eq_some_iff.1 hd
    exact hc ▸ (List.prefix_append ['*', '/'] tail).isInfix

theorem Comment.spaced_append (hk : Comment k) (cs : List Char) :
    spaced .plain (k ++ cs) = ' ' :: spaced .plain cs := by
  cases hk with
  | line h => simp [spaced, spaced_line h]
  | starred h => simp [spaced, spaced_starred h]

theorem Closed.spaced_append (h : Closed before) (cs : List Char) :
    spaced .plain (before ++ cs) = spaced .plain before ++ spaced .plain cs := by
  induction h with
  | nil => simp [spaced]
  | @cons c rest hc _ ih =>
    have hshown (cs : List Char) : spaced .plain (c :: cs) = blanked c ++ spaced .plain cs :=
      spaced_cons fun he => absurd he hc
    rw [List.cons_append, hshown, hshown, ih, List.append_assoc]
  | comment hk _ ih =>
    rw [List.append_assoc, hk.spaced_append, hk.spaced_append, ih, List.cons_append]

/-- A gap is shown as blanks. -/
theorem Gap.exists_blanks (h : Gap gap) : ∃ bs ≠ [], (∀ b ∈ bs, isBlank b = true) ∧
    ∀ cs, spaced .plain (gap ++ cs) = bs ++ spaced .plain cs := by
  induction h with
  | @blank c hc =>
    have hslash : c ≠ '/' := by
      rintro rfl
      exact absurd hc (by decide)
    obtain ⟨b, hb, hblank⟩ := blanked_of_isGap (show isGap c = true by simp [isGap, hc])
    exact ⟨[b], by simp, by simpa using hblank, fun cs => by
      rw [List.singleton_append, spaced_cons fun he => absurd he hslash, hb]⟩
  | comment hk => exact ⟨[' '], by simp, by simp, hk.spaced_append⟩
  | append _ _ ih ih' =>
    obtain ⟨bs, hne, hbs, hspaced⟩ := ih
    obtain ⟨bs', -, hbs', hspaced'⟩ := ih'
    exact ⟨bs ++ bs', by simp [hne], List.forall_mem_append.2 ⟨hbs, hbs'⟩, fun cs => by
      rw [List.append_assoc, hspaced, hspaced', List.append_assoc]⟩

theorem Gap.sameWords (h : Gap gap) (cs : List Char) :
    SameWords (spaced .plain (gap ++ cs)) (' ' :: spaced .plain cs) := by
  obtain ⟨bs, hne, hbs, hspaced⟩ := h.exists_blanks
  exact hspaced cs ▸ .blanks hne hbs _

theorem twoBlanks (cs : List Char) : SameWords (' ' :: ' ' :: cs) (' ' :: cs) :=
  SameWords.blanks (List.cons_ne_nil ' ' [' ']) (by simp) cs

theorem spaced_separator (h : isSeparator c = true) (cs : List Char) :
    spaced .plain (c :: cs) = ' ' :: spaced .plain cs := by
  rw [spaced_cons, blanked, if_pos h]
  · rfl
  · rintro rfl
    exact absurd h (by decide)

theorem spaced_mark (h : isMark mark = true) (cs : List Char) :
    spaced .plain (mark :: cs) = ' ' :: mark :: ' ' :: spaced .plain cs := by
  rw [spaced_cons, blanked_of_isMark h]
  · rfl
  · rintro rfl
    exact absurd h (by decide)

/-- What is shown of both texts has the same words. -/
theorem Relaid.sameWords (h : Relaid xs ys) : SameWords (spaced .plain xs) (spaced .plain ys) := by
  have hcontext {before xs ys : List Char} (hbefore : Closed before)
      (h : SameWords (spaced .plain xs) (spaced .plain ys)) :
      SameWords (spaced .plain (before ++ xs)) (spaced .plain (before ++ ys)) := by
    rw [hbefore.spaced_append, hbefore.spaced_append]
    exact h.append _
  cases h with
  | gap hbefore h h' => exact hcontext hbefore ((h.sameWords _).trans (h'.sameWords _).symm)
  | separator hbefore hc hd =>
    refine hcontext hbefore fun held => ?_
    rw [spaced_separator hc, spaced_separator hd]
  | separatorGap hbefore hc h =>
    refine hcontext hbefore (SameWords.symm ?_)
    rw [spaced_separator hc]
    exact h.sameWords _
  | beforeMark hbefore hmark h =>
    refine hcontext hbefore (SameWords.symm ((h.sameWords _).trans ?_))
    rw [spaced_mark hmark]
    exact twoBlanks _
  | @behindMark before gap after mark hbefore hmark h =>
    refine hcontext hbefore (SameWords.symm ?_)
    rw [spaced_mark hmark, spaced_mark hmark]
    exact (((h.sameWords after).append [' ']).trans (twoBlanks _)).append [' ', mark]

theorem Relaid.normalize_eq (h : Relaid xs ys) : normalize xs = normalize ys := by
  rw [normalize, normalize, h.sameWords.words_eq]

/-- Neighbours in what is shown of a text: marks stand between blanks, and no slash opens a
comment. -/
structure Meets (a b : Char) : Prop where
  behindMark : isMark a = true → isBlank b = true
  beforeMark : isMark b = true → isBlank a = true
  behindSlash : a = '/' → b ≠ '/' ∧ b ≠ '*'

theorem Meets.space (b : Char) : Meets ' ' b :=
  ⟨fun h => absurd h (by decide), fun _ => isBlank_space, fun h => absurd h (by decide)⟩

theorem Meets.before_space (a : Char) : Meets a ' ' :=
  ⟨fun _ => isBlank_space, fun h => absurd h (by decide), fun _ => by decide⟩

/-- What is shown first is a blank, or else the first character of the text, which is no mark
then. -/
theorem head?_spaced {b : Char} (h : b ∈ (spaced .plain cs).head?) :
    b = ' ' ∨ isMark b = false ∧ cs.head? = some b := by
  have hspace {rest : List Char} (h : b ∈ (' ' :: rest).head?) : b = ' ' := by simpa using h.symm
  revert h
  generalize hmode : Mode.plain = mode
  fun_cases spaced mode cs with
  | case1 => simp
  | case2 | case3 | case4 | case5 => exact fun h => .inl (hspace h)
  | case6 c cs _ _ hsep hmark =>
    intro h
    obtain rfl : c = b := by simpa using h
    exact .inr ⟨by simpa using hmark, rfl⟩
  | case7 | case8 => cases hmode

theorem isChain_spaced (mode : Mode) (cs : List Char) : (spaced mode cs).IsChain Meets := by
  have hspace {cs : List Char} (h : cs.IsChain Meets) : (' ' :: cs).IsChain Meets :=
    List.isChain_cons.2 ⟨fun b _ => .space b, h⟩
  fun_induction spaced mode cs with
  | case1 => exact .nil
  | case2 cs ih | case3 cs ih => exact hspace ih
  | case4 c cs _ _ hsep ih => exact hspace ih
  | case5 c cs _ _ hsep hmark ih =>
    refine hspace (List.isChain_cons.2 ⟨?_, hspace ih⟩)
    rintro b hb
    obtain rfl : ' ' = b := by simpa using hb
    exact .before_space c
  | case6 c cs hline hstarred hsep hmark ih =>
    refine List.isChain_cons.2 ⟨fun b hb => ?_, ih⟩
    rcases head?_spaced hb with rfl | ⟨hplain, hhead⟩
    · exact .before_space c
    · -- What is shown next is what comes next in the text, where a comment would have opened
      -- with it.
      obtain ⟨tail, rfl⟩ := List.head?_eq_some_iff.1 hhead
      refine ⟨fun h => absurd h hmark, fun h => by simp [hplain] at h, fun hc => ⟨?_, ?_⟩⟩
      · rintro rfl
        exact hline tail hc rfl
      · rintro rfl
        exact hstarred tail hc rfl
  | case7 c cs ih => exact ih
  | case8 star c cs ih => exact ih

theorem not_isSeparator_of_mem_spaced (mode : Mode) (cs : List Char) :
    ∀ c ∈ spaced mode cs, isSeparator c = false := by
  fun_induction spaced mode cs with
  | case1 => simp
  | case2 cs ih | case3 cs ih => exact List.forall_mem_cons.2 ⟨by decide, ih⟩
  | case4 c cs _ _ hsep ih => exact List.forall_mem_cons.2 ⟨by decide, ih⟩
  | case5 c cs _ _ hsep hmark ih =>
    have hspace : isSeparator ' ' = false := by decide
    simpa [hspace] using ⟨by simpa using hsep, ih⟩
  | case6 c cs _ _ hsep hmark ih => exact List.forall_mem_cons.2 ⟨by simpa using hsep, ih⟩
  | case7 c cs ih => exact ih
  | case8 star c cs ih => exact ih

/-- What is divided by the blanks of a shape. -/
structure IsWord (w : List Char) : Prop where
  ne_nil : w ≠ []
  not_blank : ∀ c ∈ w, isBlank c = false
  not_separator : ∀ c ∈ w, isSeparator c = false
  meets : w.IsChain Meets

theorem isWord_of_mem_words (h : w ∈ words (spaced .plain cs)) : IsWord w where
  ne_nil := (not_isBlank_of_mem_words h).1
  not_blank := (not_isBlank_of_mem_words h).2
  not_separator c hc := not_isSeparator_of_mem_spaced .plain cs c ((infix_of_mem_words h).subset hc)
  meets := List.IsChain.infix (isChain_spaced .plain cs) (infix_of_mem_words h)

namespace IsWord

theorem not_isMark_of_mem {a b : Char} (h : (a :: cs).IsChain Meets)
    (hblank : ∀ c ∈ a :: cs, isBlank c = false) (hb : b ∈ cs) : isMark b = false := by
  induction cs generalizing a with
  | nil => cases hb
  | cons d cs ih =>
    obtain ⟨hmeets, hrest⟩ := List.isChain_cons_cons.1 h
    obtain ⟨ha, hlater⟩ := List.forall_mem_cons.1 hblank
    rcases List.mem_cons.1 hb with rfl | hb
    · by_contra hmark
      simpa [ha] using hmeets.beforeMark (by simpa using hmark)
    · exact ih hrest hlater hb

/-- A mark is a word of its own, and other words have no marks. -/
theorem mark_or_not (h : IsWord w) : (∃ mark, isMark mark = true ∧ w = [mark]) ∨
    ∀ c ∈ w, isMark c = false := by
  obtain ⟨hne, hblank, -, hmeets⟩ := h
  cases w with
  | nil => exact absurd rfl hne
  | cons a cs =>
    have hlater : ∀ c ∈ cs, isMark c = false := fun c hc => not_isMark_of_mem hmeets hblank hc
    by_cases ha : isMark a
    · left
      cases cs with
      | nil => exact ⟨a, ha, rfl⟩
      | cons d cs =>
        have hd := (List.isChain_cons_cons.1 hmeets).1.behindMark ha
        simp [hblank d (by simp)] at hd
    · exact .inr (List.forall_mem_cons.2 ⟨by simpa using ha, hlater⟩)

/-- No comment opens in a word, or where it ends. -/
theorem spaced_append (h : w.IsChain Meets) (hcs : ∀ b ∈ cs.head?, isBlank b = true) :
    spaced .plain (w ++ cs) = w.flatMap blanked ++ spaced .plain cs := by
  have hblank {b : Char} (hb : isBlank b = true) : b ≠ '/' ∧ b ≠ '*' := by
    constructor <;> rintro rfl <;> exact absurd hb (by decide)
  induction w with
  | nil => rfl
  | cons c w ih =>
    obtain ⟨hmeets, hrest⟩ := List.isChain_cons.1 h
    have hnext : c = '/' → ∀ b ∈ (w ++ cs).head?, b ≠ '/' ∧ b ≠ '*' := by
      intro hc b hb
      cases w with
      | nil => exact hblank (hcs b hb)
      | cons d w => exact (hmeets b hb).behindSlash hc
    rw [List.cons_append, spaced_cons, ih hrest, List.flatMap_cons, List.append_assoc]
    exact fun hc => ⟨fun hb => (hnext hc _ hb).1 rfl, fun hb => (hnext hc _ hb).2 rfl⟩

/-- A word is shown as itself, though a mark is shown between blanks. -/
theorem words_spaced (h : IsWord w) (hcs : ∀ b ∈ cs.head?, isBlank b = true) :
    words (spaced .plain (w ++ cs)) = w :: words (spaced .plain cs) := by
  have hend : ∀ b ∈ (spaced .plain cs).head?, isBlank b = true := by
    intro b hb
    rcases head?_spaced hb with rfl | ⟨-, hhead⟩
    · exact isBlank_space
    · exact hcs b hhead
  rw [spaced_append h.meets hcs]
  rcases h.mark_or_not with ⟨mark, hmark, rfl⟩ | hnone
  · calc words ([mark].flatMap blanked ++ spaced .plain cs)
      _ = words (' ' :: ([mark] ++ ' ' :: spaced .plain cs)) := by simp [blanked_of_isMark hmark]
      _ = [mark] :: words (' ' :: spaced .plain cs) := by
        rw [words_cons_blank isBlank_space, words_append h.ne_nil h.not_blank (by simp)]
      _ = [mark] :: words (spaced .plain cs) := by rw [words_cons_blank isBlank_space]
  · have hself : w.flatMap blanked = w :=
      (List.flatMap_congr fun c hc => by simp [blanked, h.not_separator c hc, hnone c hc]).trans
        (List.flatMap_singleton' w)
    rw [hself, words_append h.ne_nil h.not_blank hend]

end IsWord

/-- The words of a shape are shown as they are. -/
theorem words_spaced_joined (h : ∀ w ∈ ws, IsWord w) : words (spaced .plain (joined ws)) = ws := by
  induction ws with
  | nil => rfl
  | cons w ws ih =>
    obtain ⟨hw, hws⟩ := List.forall_mem_cons.1 h
    cases ws with
    | nil =>
      have hend : ∀ b ∈ ([] : List Char).head?, isBlank b = true := by simp
      simpa [joined, spaced, words, words.go] using hw.words_spaced hend
    | cons v vs =>
      -- The blank that joins the words is shown as itself and divides them again.
      have hjoined : joined (w :: v :: vs) = w ++ ' ' :: joined (v :: vs) := by simp [joined]
      rw [hjoined, hw.words_spaced (by simp), spaced_cons fun he => absurd he (by decide)]
      exact congrArg (w :: ·) ((words_cons_blank isBlank_space _).trans (ih hws))

theorem normalize_normalize (cs : List Char) : normalize (normalize cs) = normalize cs := by
  have hwords := words_spaced_joined fun w (hw : w ∈ words (spaced .plain cs)) =>
    isWord_of_mem_words hw
  exact congrArg joined hwords

/-- Texts that differ by any number of changes of the layout, back and forth, have the same shape.
Every shape is its own shape. -/
theorem normalize_relaid : (∀ xs ys, Relation.EqvGen Relaid xs ys → normalize xs = normalize ys) ∧
    ∀ cs, normalize (normalize cs) = normalize cs := by
  refine ⟨fun xs ys h => ?_, normalize_normalize⟩
  induction h with
  | rel xs ys h => exact h.normalize_eq
  | refl xs => rfl
  | symm xs ys _ ih => exact ih.symm
  | trans xs ys zs _ _ ih ih' => exact ih.trans ih'

theorem closed_of_not_mem (h : '/' ∉ cs) : Closed cs := by
  induction cs with
  | nil => exact .nil
  | cons c cs ih =>
    simp only [List.mem_cons, not_or] at h
    exact .cons (Ne.symm h.1) (ih h.2)

def dense : List Char := ['{', 'a', ':', 'A', ',', '}']

def loose : List Char := ['{', ' ', 'a', ':', '\t', 'A', ';', ' ', '/', '*', '*', '/', '}']

theorem normalize_dense_loose : Relation.EqvGen Relaid dense loose ∧
    normalize dense = normalize loose ∧
    normalize (normalize loose) = normalize loose := by
  have hblank : Gap [' '] := .blank rfl
  have hcomment : Gap ['/', '*', '*', '/'] := .comment (@Comment.starred [] (by decide))
  have hbrace : Relaid dense ['{', ' ', 'a', ':', 'A', ',', '}'] :=
    .behindMark .nil rfl hblank
  have hcolon :
      Relaid ['{', ' ', 'a', ':', 'A', ',', '}'] ['{', ' ', 'a', ':', '\t', 'A', ',', '}'] :=
    @Relaid.behindMark ['{', ' ', 'a'] ['\t'] _ _ (closed_of_not_mem (by decide)) rfl (.blank rfl)
  have hseparator :
      Relaid ['{', ' ', 'a', ':', '\t', 'A', ',', '}'] ['{', ' ', 'a', ':', '\t', 'A', ';', '}'] :=
    @Relaid.separator ['{', ' ', 'a', ':', '\t', 'A'] _ _ _ (closed_of_not_mem (by decide)) rfl rfl
  have hend : Relaid ['{', ' ', 'a', ':', '\t', 'A', ';', '}'] loose :=
    @Relaid.beforeMark ['{', ' ', 'a', ':', '\t', 'A', ';'] [' ', '/', '*', '*', '/'] _ _
      (closed_of_not_mem (by decide)) rfl (hblank.append hcomment)
  have hrelaid : Relation.EqvGen Relaid dense loose :=
    .trans _ _ _ (.rel _ _ hbrace)
      (.trans _ _ _ (.rel _ _ hcolon) (.trans _ _ _ (.rel _ _ hseparator) (.rel _ _ hend)))
  exact ⟨hrelaid, normalize_relaid.1 _ _ hrelaid, normalize_relaid.2 loose⟩

end QualityGate.TypeShape
