import QualityGate.Proofs.Text.Words
import QualityGate.Proofs.TypeShape.Tokens

/-!
What a shape shows of the tokens of a text. A reader of the shape finds the pieces of the text
again, its literals as the shape shows them. So texts of one shape have the same tokens if their
literals can be told apart by their own shapes.
-/
namespace QualityGate.TypeShape

open Syntax Text Piece

variable {held cs : List Char} {spot : Spot} {ps : List Piece}

/-- A character outside of comments as shapes show it. -/
def blanked (c : Char) : List Char :=
  if isSeparator c then [' '] else if isMark c then [' ', c, ' '] else [c]

def gapped (held : List Char) : List Char := if held.head? = some ' ' then held else ' ' :: held

/-- One more character of a text, held with its last character first, in which blanks become one. -/
def settle (held : List Char) (c : Char) : List Char := if isBlank c then gapped held else c :: held

def press (c : Char) (held : List Char) : List Char := (blanked c).foldl settle held

def Spot.pressed : Spot → Spot
  | .code held => .code held
  | .literal inside held => .literal inside (held.foldr press [])

/-- The pieces of a shape, whose blanks are gaps outside of literals. -/
def pieces : Spot → List Char → List Piece
  | .code held, [] => behind held []
  | .literal _ _, [] => []
  | .code held, c :: cs =>
    if isBlank c then behind held (pieces (.code []) cs)
    else if isMark c then behind held (.mark c :: pieces (.code []) cs)
    else match quote? c with
      | some level => behind held (pieces (.literal ([level], .plain) [c]) cs)
      | none => pieces (.code (c :: held)) cs
  | .literal inside held, c :: cs =>
    if isBlank c then pieces (.literal (inside.next .gap) (gapped held)) cs
    else if inside.closes (sign c) then .literal (c :: held).reverse :: pieces (.code []) cs
    else pieces (.literal (inside.next (sign c)) (c :: held)) cs

def Piece.pressed : Piece → Piece
  | .literal cs => .literal (cs.reverse.foldr press []).reverse
  | p => p

theorem gapped_gapped (held : List Char) : gapped (gapped held) = gapped held := by
  unfold gapped
  split <;> simp_all

theorem spaced_cons {c : Char} {cs : List Char}
    (h : c = '/' → cs.head? ≠ some '/' ∧ cs.head? ≠ some '*') :
    spaced .plain (c :: cs) = blanked c ++ spaced .plain cs := by
  rw [spaced]
  · unfold blanked
    split
    · rfl
    · split <;> rfl
  · rintro cs rfl rfl
    simp at h
  · rintro cs rfl rfl
    simp at h

theorem blanked_of_isGap {c : Char} (h : isGap c = true) :
    ∃ b, blanked c = [b] ∧ isBlank b = true := by
  by_cases hs : isSeparator c
  · exact ⟨' ', by simp [blanked, hs], isBlank_space⟩
  · exact ⟨c, by simp [blanked, hs, not_isMark_of_isGap h], by simpa [isGap, hs] using h⟩

theorem blanked_of_isMark {c : Char} (h : isMark c = true) : blanked c = [' ', c, ' '] := by
  simp [blanked, (isGap_eq_false_iff.1 (sign_of_isMark h).2).2, h]

theorem blanked_of_plain {c : Char} (hg : isGap c = false) (hm : isMark c = false) :
    blanked c = [c] := by
  simp [blanked, (isGap_eq_false_iff.1 hg).2, hm]

theorem blanked_of_quote? {c : Char} {level : Level} (h : quote? c = some level) :
    blanked c = [c] :=
  blanked_of_plain (isGap_of_quote? h) (not_isMark_of_quote? h)

theorem Inside.not_closes_mark {inside : Inside} {c : Char} (h : isMark c = true) :
    inside.closes (sign c) = false := by
  by_contra hcloses
  obtain ⟨level, hsign⟩ := quote_of_closes (by simpa using hcloses)
  have hquote := quote?_of_sign hsign
  simp [quote?_of_isMark h] at hquote

/-- Inside a literal a reader gets past a character as the shape shows it as past the character
itself. -/
theorem pieces_literal {inside : Inside} {held rest : List Char} {c : Char}
    (hc : inside.closes (sign c) = false) :
    pieces (.literal inside held) (blanked c ++ rest) =
      pieces (.literal (inside.next (sign c)) (press c held)) rest := by
  unfold press
  by_cases hg : isGap c
  · obtain ⟨b, hb, hblank⟩ := blanked_of_isGap hg
    simp [hb, pieces, hblank, sign_of_isGap hg, settle]
  · have hblank := (isGap_eq_false_iff.1 (Bool.eq_false_iff.2 hg)).1
    by_cases hm : isMark c
    · have hnext := Inside.next_mark (sign_of_isMark hm).1 inside
      simp [blanked_of_isMark hm, pieces, hblank, Inside.not_closes_mark hm, hnext, settle]
    · simp [blanked_of_plain (Bool.eq_false_iff.2 hg) (Bool.eq_false_iff.2 hm), pieces,
        hblank, hc, settle]

/-- Outside of literals, too. -/
theorem pieces_code (held : List Char) (c : Char) (rest : List Char) :
    pieces (.code held) (blanked c ++ rest) =
      if isGap c then behind held (pieces (.code []) rest)
      else if isMark c then behind held (.mark c :: pieces (.code []) rest)
      else match quote? c with
        | some level => behind held (pieces (.literal ([level], .plain) [c]) rest)
        | none => pieces (.code (c :: held)) rest := by
  have hnil (ps : List Piece) : behind [] ps = ps := rfl
  by_cases hg : isGap c
  · obtain ⟨b, hb, hblank⟩ := blanked_of_isGap hg
    simp [hb, pieces, hblank, hg]
  · have hblank := (isGap_eq_false_iff.1 (Bool.eq_false_iff.2 hg)).1
    by_cases hm : isMark c
    · simp [blanked_of_isMark hm, pieces, hblank, hg, hm, hnil]
    · rw [blanked_of_plain (Bool.eq_false_iff.2 hg) (Bool.eq_false_iff.2 hm), if_neg hg, if_neg hm]
      simp [pieces, hblank, hm]

/-- No literal holds what opens a comment. -/
def Quiet (ps : List Piece) : Prop := ∀ t, Piece.literal t ∈ ps → ¬ OpensComment t

theorem quiet_behind : Quiet (behind held ps) ↔ Quiet ps := by
  simp [Quiet]

theorem map_pressed_behind {read : Option (List Piece)} {shown : List Piece}
    (h : read.map (behind held) = some ps) (hq : Quiet ps)
    (ih : ∀ {ps}, read = some ps → Quiet ps → shown = ps.map Piece.pressed) :
    behind held shown = ps.map Piece.pressed := by
  obtain ⟨ps', hps, rfl⟩ := Option.map_eq_some_iff.1 h
  rw [ih hps (quiet_behind.1 hq)]
  unfold behind
  split <;> rfl

/-- In a literal that holds no comment, no slash is before a second one or a star. -/
theorem no_comment {inside : Inside} {c : Char}
    (h : split? .plain (.literal inside (c :: held)) cs = some ps) (hq : Quiet ps) (hc : c = '/') :
    cs.head? ≠ some '/' ∧ cs.head? ≠ some '*' := by
  obtain ⟨d, body, rest, ps', rfl, rfl⟩ := split?_literal h
  subst hc
  have hno := hq _ List.mem_cons_self
  simp only [OpensComment, not_or] at hno
  constructor
  · rintro hd
    obtain rfl : d = '/' := by simpa using hd
    exact hno.1 ⟨held.reverse, body, by simp⟩
  · rintro hd
    obtain rfl : d = '*' := by simpa using hd
    exact hno.2 ⟨held.reverse, body, by simp⟩

/-- The pieces of a shape are those of the text, literals as the shape shows them. The reader of the
shape is always where the reader of the text is, but for what it holds of a literal. -/
theorem pieces_spaced {mode : Mode} (h : split? mode spot cs = some ps) (hq : Quiet ps) :
    pieces spot.pressed (spaced mode cs) = ps.map Piece.pressed := by
  fun_induction split? mode spot cs generalizing ps with
  | case1 | case2 | case6 | case12 | case15 => cases h
  | case3 mode held =>
    obtain rfl := Option.some.inj h
    cases mode <;> simp [spaced, pieces, Spot.pressed, behind] <;> split <;> rfl
  | case4 held cs ih | case5 held cs ih =>
    simp only [Spot.pressed, spaced, pieces, isBlank_space, if_true]
    exact map_pressed_behind h hq ih
  | case7 held c cs _ _ hslash hgap ih =>
    rw [spaced_cons fun hc => absurd hc hslash, Spot.pressed, pieces_code, if_pos hgap]
    exact map_pressed_behind h hq ih
  | case8 held c cs _ _ hslash hgap hmark ih =>
    rw [spaced_cons fun hc => absurd hc hslash, Spot.pressed, pieces_code, if_neg hgap,
      if_pos hmark]
    apply map_pressed_behind h hq
    intro marked hmarked hq
    obtain ⟨ps', hps, rfl⟩ := Option.map_eq_some_iff.1 hmarked
    rw [← Spot.pressed, ih hps fun t ht => hq t (List.mem_cons_of_mem _ ht)]
    rfl
  | case9 held c cs _ _ hslash hgap hmark level hquote ih =>
    rw [spaced_cons fun hc => absurd hc hslash, Spot.pressed, pieces_code, if_neg hgap,
      if_neg hmark, hquote]
    apply map_pressed_behind h hq
    intro ps hps hq
    rw [← ih hps hq]
    simp [Spot.pressed, press, blanked_of_quote? hquote, settle, isBlank_of_quote? hquote]
  | case10 held c cs _ _ hslash hgap hmark hquote ih =>
    rw [spaced_cons fun hc => absurd hc hslash, Spot.pressed, pieces_code, if_neg hgap,
      if_neg hmark, hquote]
    exact ih h hq
  | case11 inside held c cs hcloses ih =>
    obtain ⟨ps', hps, rfl⟩ := Option.map_eq_some_iff.1 h
    obtain ⟨level, hsign⟩ := Inside.quote_of_closes hcloses
    have hquote := quote?_of_sign hsign
    have hrest := ih hps fun t ht => hq t (List.mem_cons_of_mem _ ht)
    rw [spaced_cons fun hc => absurd hc (ne_slash_of_quote? hquote), blanked_of_quote? hquote]
    simp only [Spot.pressed] at hrest
    simp [Spot.pressed, pieces, hcloses, hrest, Piece.pressed, press,
      blanked_of_quote? hquote, settle, isBlank_of_quote? hquote]
  | case13 inside held c cs hcloses _ ih =>
    rw [spaced_cons (no_comment h hq), Spot.pressed,
      pieces_literal (Bool.eq_false_iff.2 hcloses), ← ih h hq]
    rfl
  | case14 spot cs ih => simpa [spaced] using ih h hq
  | case16 spot c cs hend _ ih => simpa [spaced, hend] using ih h hq
  | case17 star spot c cs ih =>
    rw [spaced]
    exact ih h hq

/-- Two texts that a reader of shapes takes for the same, wherever it stands. -/
def Alike (xs ys : List Char) : Prop := ∀ spot, pieces spot xs = pieces spot ys

namespace Alike

variable {xs ys zs : List Char} {c : Char}

theorem trans (h : Alike xs ys) (k : Alike ys zs) : Alike xs zs :=
  fun spot => (h spot).trans (k spot)

theorem cons (h : Alike xs ys) (c : Char) : Alike (c :: xs) (c :: ys) := by
  intro spot
  cases spot <;> simp only [pieces, h _]

theorem append (h : Alike xs ys) (cs : List Char) : Alike (cs ++ xs) (cs ++ ys) := by
  induction cs with
  | nil => exact h
  | cons c cs ih => exact ih.cons c

theorem blank (h : isBlank c = true) (cs : List Char) : Alike (' ' :: cs) (c :: cs) := by
  intro spot
  cases spot <;> simp [pieces, h]

theorem blanks (cs : List Char) : Alike (' ' :: cs) (' ' :: ' ' :: cs) := by
  intro spot
  cases spot with
  | code held => simp [pieces, behind]
  | literal inside held => simp [pieces, Inside.next_gap_gap, gapped_gapped]

theorem end_blank : Alike [] [' '] := by
  intro spot
  cases spot <;> simp [pieces, behind]

end Alike

def joined (ws : List (List Char)) : List Char := (List.intersperse [' '] ws).flatten

theorem alike_joined_cons (w : List Char) (ws : List (List Char)) :
    Alike (joined (w :: ws)) (w ++ ' ' :: joined ws) := by
  cases ws with
  | nil => simpa [joined] using Alike.end_blank.append w
  | cons v vs =>
    intro spot
    simp [joined]

/-- Words keep all but the number and the kinds of the blanks. -/
theorem alike_joined_words (cs : List Char) :
    Alike (' ' :: joined (words.go [] cs)) (' ' :: cs) ∧
      ∀ held ≠ [], Alike (joined (words.go held cs)) (held.reverse ++ cs) := by
  induction cs with
  | nil =>
    refine ⟨fun _ => rfl, fun held hheld spot => ?_⟩
    simp [words.go, hheld, joined]
  | cons c cs ih =>
    by_cases hc : isBlank c
    · have hgap : Alike (' ' :: joined (words.go [] cs)) (c :: cs) := ih.1.trans (.blank hc cs)
      constructor
      · simpa [words.go, hc] using (Alike.blanks _).trans (hgap.cons ' ')
      · intro held hheld
        simpa [words.go, hc, hheld] using (alike_joined_cons _ _).trans (hgap.append held.reverse)
    · constructor
      · simpa [words.go, hc] using (ih.2 [c] (by simp)).cons ' '
      · intro held hheld
        simpa [words.go, hc] using ih.2 (c :: held) (by simp)

/-- A shape shows the pieces of the text with blanks for comments and separators. -/
theorem pieces_normalize (cs : List Char) :
    pieces (.code []) (normalize cs) = pieces (.code []) (spaced .plain cs) := by
  have hspace (xs : List Char) : pieces (.code []) (' ' :: xs) = pieces (.code []) xs := by
    simp [pieces, behind]
  have h := (alike_joined_words (spaced .plain cs)).1 (.code [])
  rwa [hspace, hspace] at h

theorem pieces_of_split? (h : split? .plain (.code []) cs = some ps) (hq : Quiet ps) :
    pieces (.code []) (normalize cs) = ps.map Piece.pressed := by
  rw [pieces_normalize]
  exact pieces_spaced h hq

theorem spaced_eq_flatMap (h : ¬ OpensComment cs) : spaced .plain cs = cs.flatMap blanked := by
  induction cs with
  | nil => simp [spaced]
  | cons c cs ih =>
    simp only [OpensComment, not_or] at h
    have hrest : ¬ OpensComment cs := fun hc => hc.elim
      (fun hc => h.1 (hc.trans (List.suffix_cons c cs).isInfix))
      (fun hc => h.2 (hc.trans (List.suffix_cons c cs).isInfix))
    rw [spaced_cons, ih hrest, List.flatMap_cons]
    rintro rfl
    constructor
    · intro hd
      obtain ⟨tail, rfl⟩ := List.head?_eq_some_iff.1 hd
      exact h.1 (List.prefix_append ['/', '/'] tail).isInfix
    · intro hd
      obtain ⟨tail, rfl⟩ := List.head?_eq_some_iff.1 hd
      exact h.2 (List.prefix_append ['/', '*'] tail).isInfix

theorem words_go_ne_nil {held cs : List Char} (h : held ≠ [] ∨ ∃ c ∈ cs, isBlank c = false) :
    words.go held cs ≠ [] := by
  induction cs generalizing held with
  | nil => simp_all [words.go]
  | cons c cs ih =>
    by_cases hc : isBlank c
    · by_cases hheld : held = []
      · have hrest : ∃ c ∈ cs, isBlank c = false := by simpa [hheld, hc] using h
        simpa [words.go, hc, hheld] using ih (.inr hrest)
      · simp [words.go, hc, hheld]
    · simpa [words.go, hc] using ih (.inl (List.cons_ne_nil c held))

/-- Up to the last word, of which no blank is part, blanks become one. -/
theorem foldl_settle (hlast : ∀ c ∈ cs.getLast?, isBlank c = false) :
    (∀ done, cs ≠ [] → cs.foldl settle (' ' :: done) = (joined (words.go [] cs)).reverse ++
      ' ' :: done) ∧
      ∀ c held done, isBlank c = false →
        cs.foldl settle (c :: held ++ done) =
          (joined (words.go (c :: held) cs)).reverse ++ done := by
  induction cs with
  | nil =>
    refine ⟨fun _ h => absurd rfl h, fun c held done _ => ?_⟩
    simp [words.go, joined]
  | cons d cs ih =>
    have hrest : ∀ c ∈ cs.getLast?, isBlank c = false := by
      cases cs with
      | nil => simp
      | cons e es => simpa using hlast
    by_cases hd : isBlank d
    · have hcs : cs ≠ [] := by
        rintro rfl
        simp [hd] at hlast
      have hword : isBlank (cs.getLast hcs) = false :=
        hrest _ (List.getLast?_eq_getLast_of_ne_nil hcs ▸ rfl)
      have hwords : words.go [] cs ≠ [] :=
        words_go_ne_nil (.inr ⟨cs.getLast hcs, List.getLast_mem hcs, hword⟩)
      constructor
      · intro done _
        simpa [words.go, hd, settle, gapped] using (ih hrest).1 done hcs
      · intro c held done hc
        have hne : c ≠ ' ' := by
          rintro rfl
          exact absurd hc (by decide)
        obtain ⟨w, ws, hw⟩ := List.exists_cons_of_ne_nil hwords
        have hgap := (ih hrest).1 (c :: held ++ done) hcs
        simpa [words.go, hd, settle, gapped, hne, joined, hw] using hgap
    · constructor
      · intro done _
        simpa [words.go, hd, settle] using (ih hrest).2 d [] (' ' :: done) (by simpa using hd)
      · intro c held done hc
        simpa [words.go, hd, settle] using (ih hrest).2 d (c :: held) done (by simpa using hd)

/-- What a reader sees of a literal in a shape is the shape of the literal. -/
theorem normalize_literal {t : List Char} (hfront : isLiteral t = true)
    (hback : isLiteral t.reverse = true) (h : ¬ OpensComment t) :
    (t.reverse.foldr press []).reverse = normalize t := by
  cases t with
  | nil => simp [isLiteral] at hfront
  | cons c cs =>
    obtain ⟨level, hlevel⟩ := quote?_of_isLiteral hfront
    have hc := isBlank_of_quote? hlevel
    have hspaced : spaced .plain (c :: cs) = c :: cs.flatMap blanked := by
      rw [spaced_eq_flatMap h, List.flatMap_cons, blanked_of_quote? hlevel, List.singleton_append]
    have hlast : ∀ d ∈ (cs.flatMap blanked).getLast?, isBlank d = false := by
      rcases List.eq_nil_or_concat cs with rfl | ⟨inner, d, rfl⟩
      · simp
      · obtain ⟨_, hd⟩ :=
          quote?_of_isLiteral (c := d) (t := (c :: inner).reverse) (by simpa using hback)
        simp [blanked_of_quote? hd, isBlank_of_quote? hd]
    have hfold : (c :: cs).reverse.foldr press [] = (cs.flatMap blanked).foldl settle [c] := by
      rw [List.foldr_reverse]
      simp only [press]
      rw [← List.foldl_flatMap, ← spaced_eq_flatMap h, hspaced]
      simp [settle, hc]
    have hwords : normalize (c :: cs) = joined (words.go [c] (cs.flatMap blanked)) := by
      rw [normalize, hspaced]
      simp [words, words.go, hc, joined]
    have hsettle := (foldl_settle hlast).2 c [] [] hc
    rw [hfold, hwords]
    simpa using congrArg List.reverse hsettle

/-- The literals among two lists of tokens stay apart in shapes: no comment seems to open in one,
and no two of them have one shape. -/
structure ToldApart (ts us : List (List Char)) : Prop where
  quiet : ∀ t ∈ ts ++ us, isLiteral t = true → ¬ OpensComment t
  apart : ∀ t ∈ ts, ∀ u ∈ us, isLiteral t = true → isLiteral u = true →
    normalize t = normalize u → t = u

theorem eq_of_map_pressed {ps qs : List Piece} (h : ps.map Piece.pressed = qs.map Piece.pressed)
    (hliteral : ∀ t u, .literal t ∈ ps → .literal u ∈ qs →
      Piece.pressed (.literal t) = Piece.pressed (.literal u) → t = u) :
    ps = qs := by
  induction ps generalizing qs with
  | nil => simpa using h.symm
  | cons p ps ih =>
    cases qs with
    | nil => simp at h
    | cons q qs =>
      obtain ⟨hpq, hrest⟩ := List.cons_eq_cons.1 h
      obtain rfl := ih hrest fun t u ht hu =>
        hliteral t u (List.mem_cons_of_mem _ ht) (List.mem_cons_of_mem _ hu)
      congr 1
      cases p <;> cases q <;> first
        | exact congrArg _ (hliteral _ _ List.mem_cons_self List.mem_cons_self hpq)
        | exact hpq
        | cases hpq

/-- Texts of one shape have the same tokens, as long as their literals stay apart. -/
theorem tokens_eq_of_normalize_eq {xs ys : List Char} {ts us : List (List Char)}
    (h : normalize xs = normalize ys) (hts : tokens? xs = some ts) (hus : tokens? ys = some us)
    (htold : ToldApart ts us) : ts = us := by
  obtain ⟨ps, hps, rfl, hleft⟩ := split?_of_tokens? hts
  obtain ⟨qs, hqs, rfl, hright⟩ := split?_of_tokens? hus
  have hpquiet : Quiet ps :=
    fun t ht => htold.quiet t (List.mem_append_left _ (hleft t ht).1) (hleft t ht).2.1
  have hqquiet : Quiet qs :=
    fun t ht => htold.quiet t (List.mem_append_right _ (hright t ht).1) (hright t ht).2.1
  have hpressed : ps.map Piece.pressed = qs.map Piece.pressed := by
    rw [← pieces_of_split? hps hpquiet, h, pieces_of_split? hqs hqquiet]
  have hpieces : ps = qs := by
    refine eq_of_map_pressed hpressed fun t u ht hu he => ?_
    obtain ⟨htmem, htfront, htback⟩ := hleft t ht
    obtain ⟨humem, hufront, huback⟩ := hright u hu
    rw [Piece.pressed, Piece.pressed, normalize_literal htfront htback (hpquiet t ht),
      normalize_literal hufront huback (hqquiet u hu)] at he
    exact htold.apart t htmem u humem htfront hufront (by simpa using he)
  rw [hpieces]

end QualityGate.TypeShape
