import QualityGate.Semantic.TypeShape
import QualityGate.Syntax.Token
import Mathlib.Data.List.Infix

/-!
Tokens of what is written in a declaration, read from its characters. Separators count as blanks, a
string is one token, and so is a template with all its substitutions. Marks are taken one by one,
since types close several brackets in a row, and only an arrow is put together again. Where the
characters alone leave the tokens open, there is no reading: a slash may begin a pattern, and other
marks may belong together.
-/
namespace QualityGate.TypeShape

open Syntax Text

/-- What a reader is in the middle of: a string, the text of a template, or a substitution, in which
every brace opens one more level. -/
inductive Level
  | single
  | double
  | template
  | braces
  deriving DecidableEq

/-- What a character is to the reader of a literal. -/
inductive Sign
  | quote (level : Level)
  | backslash
  | dollar
  | opening
  | closing
  | slash
  | gap
  | other
  deriving DecidableEq

def isGap (c : Char) : Bool := isBlank c || isSeparator c

def quote? (c : Char) : Option Level :=
  if c = '\x27' then some .single
  else if c = '\x22' then some .double
  else if c = '\x60' then some .template
  else none

def sign (c : Char) : Sign :=
  match quote? c with
  | some level => .quote level
  | none =>
    if c = '\\' then .backslash
    else if c = '$' then .dollar
    else if c = '{' then .opening
    else if c = '}' then .closing
    else if c = '/' then .slash
    else if isGap c then .gap
    else .other

/-- What the characters before make of the next one: an escape hides it, and a dollar lets a brace
open a substitution, unless there is a gap between them. -/
inductive Turn
  | plain
  | escaped
  | dollar
  | gap
  deriving DecidableEq

/-- Where a reader stands in a literal, the innermost level first. -/
abbrev Inside := List Level × Turn

namespace Inside

def closes : Inside → Sign → Bool
  | (_, .escaped), _ => false
  | ([level], _), .quote l => l = level
  | _, _ => false

/-- A slash in a substitution, or a brace that a gap parts from its dollar. -/
def refuses : Inside → Sign → Bool
  | (.braces :: _, _), .slash => true
  | (.template :: _, .gap), .opening => true
  | _, _ => false

def next : Inside → Sign → Inside
  | (.braces :: levels, _), .closing => (levels, .plain)
  | (.braces :: levels, _), .opening => (.braces :: .braces :: levels, .plain)
  | (.braces :: levels, _), .quote level => (level :: .braces :: levels, .plain)
  | (.braces :: levels, _), _ => (.braces :: levels, .plain)
  | (levels, .escaped), _ => (levels, .plain)
  | (level :: levels, _), .quote l => (if l = level then levels else level :: levels, .plain)
  | (levels, _), .backslash => (levels, .escaped)
  | (.template :: levels, _), .dollar => (.template :: levels, .dollar)
  | (.template :: levels, .dollar), .opening => (.braces :: .template :: levels, .plain)
  | (.template :: levels, .gap), .opening => (.braces :: .template :: levels, .plain)
  | (.template :: levels, .dollar), .gap => (.template :: levels, .gap)
  | (.template :: levels, .gap), .gap => (.template :: levels, .gap)
  | (levels, _), _ => (levels, .plain)

end Inside

/-- Where a reader stands, with what it has read of a run or of a literal, the last character
first. -/
inductive Spot
  | code (held : List Char)
  | literal (inside : Inside) (held : List Char)

/-- A run of characters between gaps, marks and literals, or one of the latter two. -/
inductive Piece
  | run (cs : List Char)
  | mark (c : Char)
  | literal (cs : List Char)
  deriving DecidableEq

namespace Piece

def behind (held : List Char) (ps : List Piece) : List Piece :=
  if held.isEmpty then ps else .run held.reverse :: ps

end Piece

open Piece

/-- The pieces of a text, comments left out. -/
def split? : Mode → Spot → List Char → Option (List Piece)
  | .starred _, _, [] => none
  | _, .literal _ _, [] => none
  | _, .code held, [] => some (behind held [])
  | .plain, .code held, '/' :: '/' :: cs => (split? .line (.code []) cs).map (behind held)
  | .plain, .code held, '/' :: '*' :: cs =>
    (split? (.starred false) (.code []) cs).map (behind held)
  | .plain, .code held, c :: cs =>
    if c = '/' then none
    else if isGap c then (split? .plain (.code []) cs).map (behind held)
    else if isMark c then ((split? .plain (.code []) cs).map (.mark c :: ·)).map (behind held)
    else match quote? c with
      | some level => (split? .plain (.literal ([level], .plain) [c]) cs).map (behind held)
      | none => split? .plain (.code (c :: held)) cs
  | .plain, .literal inside held, c :: cs =>
    if inside.closes (sign c) then (split? .plain (.code []) cs).map
      (.literal (c :: held).reverse :: ·)
    else if inside.refuses (sign c) then none
    else split? .plain (.literal (inside.next (sign c)) (c :: held)) cs
  | .line, spot, c :: cs =>
    if c = '\n' then split? .plain spot cs
    else if isLineEnd c && cs.head? != some '\n' then none
    else split? .line spot cs
  | .starred star, spot, c :: cs =>
    split? (if star && c = '/' then .plain else .starred (c = '*')) spot cs

/-- The tokens of a run, as the scanner finds them one behind the other; `skip` counts what is left
of a token. -/
def lexemes : Nat → List Char → List (List Char)
  | _, [] => []
  | skip + 1, _ :: cs => lexemes skip cs
  | 0, c :: cs =>
    if isSpace c then lexemes 0 cs
    else
      let size := (Token.scan (c :: cs)).2 - 1
      (c :: cs.take size) :: lexemes size cs

def Piece.tokens : Piece → List (List Char)
  | .run cs => lexemes 0 cs
  | .mark c => [[c]]
  | .literal cs => [cs]

def arrows : List (List Char) → List (List Char)
  | ['='] :: ['>'] :: ts => ['=', '>'] :: arrows ts
  | t :: ts => t :: arrows ts
  | [] => []

/-- Two tokens that are one without a gap between them. Closing brackets stay apart in types. -/
def isOne (t u : List Char) : Bool := t.head? != some '>' && Token.marks.contains (t ++ u)

/-- The tokens of a text, if its characters tell. -/
def tokens? (cs : List Char) : Option (List (List Char)) :=
  (split? .plain (.code []) cs).bind fun ps =>
    let ts := arrows (ps.flatMap Piece.tokens)
    if (ts.zip ts.tail).any fun p => isOne p.1 p.2 then none else some ts

/-- Gaps, comments and separators leave no token; a template is one, with the braces in it. -/
example : tokens?
    "<K>\x7b [k: K]: \x60a$\x7bb\x7d\x60, // c\n f: () => \x27d; e\x27 /* g */ \x7d".toList =
    some (["<", "K", ">", "\x7b", "[", "k", ":", "K", "]", ":", "\x60a$\x7bb\x7d\x60",
      "f", ":", "(", ")", "=>", "\x27d; e\x27", "\x7d"].map String.toList) := by
  decide +kernel

def isLiteral (t : List Char) : Bool := (t.head?.bind quote?).isSome

def OpensComment (t : List Char) : Prop := ['/', '/'] <:+: t ∨ ['/', '*'] <:+: t

instance (t : List Char) : Decidable (OpensComment t) := inferInstanceAs (Decidable (_ ∨ _))

theorem isGap_eq_false_iff {c : Char} : isGap c = false ↔
    isBlank c = false ∧ isSeparator c = false :=
  Bool.or_eq_false_iff

theorem sign_of_isGap {c : Char} (h : isGap c = true) : sign c = .gap := by
  have hne (d : Char) (hd : isGap d = false) : c ≠ d := by
    rintro rfl
    simp [h] at hd
  simp [sign, quote?, h, hne '\x27' (by decide), hne '\x22' (by decide), hne '\x60' (by decide),
    hne '\\' (by decide), hne '$' (by decide), hne '{' (by decide), hne '}' (by decide),
    hne '/' (by decide)]

def Sign.isOfMark : Sign → Bool
  | .opening | .closing | .other => true
  | _ => false

theorem all_marks : ['{', '}', '(', ')', '[', ']', '<', '>', ':', '|', '&', '?', '='].all
    (fun c => (sign c).isOfMark && !isGap c) = true := by
  decide

theorem sign_of_isMark {c : Char} (h : isMark c = true) :
    (sign c).isOfMark = true ∧ isGap c = false := by
  simpa using List.all_eq_true.1 all_marks c (by simpa [isMark] using h)

theorem quote?_of_isMark {c : Char} (h : isMark c = true) : quote? c = none := by
  have hs := (sign_of_isMark h).1
  unfold sign at hs
  split at hs
  · simp [Sign.isOfMark] at hs
  · assumption

theorem not_isMark_of_isGap {c : Char} (h : isGap c = true) : isMark c = false := by
  cases hm : isMark c
  · rfl
  · simp [(sign_of_isMark hm).2] at h

theorem ne_slash_of_quote? {c : Char} {level : Level} (h : quote? c = some level) : c ≠ '/' := by
  rintro rfl
  simp [quote?] at h

theorem isGap_of_quote? {c : Char} {level : Level} (h : quote? c = some level) :
    isGap c = false := by
  unfold quote? at h
  split at h
  · next hc => subst hc; decide
  · split at h
    · next hc => subst hc; decide
    · split at h
      · next hc => subst hc; decide
      · cases h

theorem not_isMark_of_quote? {c : Char} {level : Level} (h : quote? c = some level) :
    isMark c = false := by
  cases hm : isMark c
  · rfl
  · simp [quote?_of_isMark hm] at h

theorem quote?_of_sign {c : Char} {level : Level} (h : sign c = .quote level) :
    quote? c = some level := by
  unfold sign at h
  split at h
  · next hq => rw [hq]; injection h; simp_all
  · repeat' split at h
    all_goals cases h

theorem isBlank_of_quote? {c : Char} {level : Level} (h : quote? c = some level) :
    isBlank c = false :=
  (isGap_eq_false_iff.1 (isGap_of_quote? h)).1

theorem quote?_of_isLiteral {c : Char} {t : List Char} (h : isLiteral (c :: t) = true) :
    ∃ level, quote? c = some level :=
  Option.isSome_iff_exists.1 (by simpa [isLiteral] using h)

namespace Inside

theorem next_gap_gap (inside : Inside) : (inside.next .gap).next .gap = inside.next .gap := by
  obtain ⟨levels, turn⟩ := inside
  rcases levels with _ | ⟨level, levels⟩
  · cases turn <;> rfl
  · cases level <;> cases turn <;> rfl

/-- Gaps around a mark in a literal change nothing. -/
theorem next_mark {s : Sign} (hs : s.isOfMark = true) (inside : Inside) :
    ((inside.next .gap).next s).next .gap = inside.next s := by
  obtain ⟨levels, turn⟩ := inside
  rcases levels with _ | ⟨level, _ | ⟨_ | _ | _ | _, _⟩⟩ <;> cases turn <;> cases s <;> first
    | cases level <;> rfl
    | rfl
    | cases hs

/-- Only a quote ends a literal. -/
theorem quote_of_closes {inside : Inside} {s : Sign} (h : inside.closes s = true) :
    ∃ level, s = .quote level := by
  unfold closes at h
  split at h
  · cases h
  · exact ⟨_, rfl⟩
  · cases h

end Inside

variable {held cs : List Char} {spot : Spot} {ps : List Piece}

theorem split?_literal_cons (inside : Inside) (held : List Char) (c : Char) (cs : List Char) :
    split? .plain (.literal inside held) (c :: cs) =
      if inside.closes (sign c) then (split? .plain (.code []) cs).map
        (.literal (c :: held).reverse :: ·)
      else if inside.refuses (sign c) then none
      else split? .plain (.literal (inside.next (sign c)) (c :: held)) cs := rfl

/-- A literal that is open has at least one more character, which is the next one. -/
theorem split?_literal {inside : Inside} (h : split? .plain (.literal inside held) cs = some ps) :
    ∃ c body rest ps', cs = c :: (body ++ rest) ∧
      ps = .literal (held.reverse ++ c :: body) :: ps' := by
  induction cs generalizing inside held with
  | nil => cases h
  | cons c cs ih =>
    rw [split?_literal_cons] at h
    split at h
    · obtain ⟨ps', -, rfl⟩ := Option.map_eq_some_iff.1 h
      exact ⟨c, [], cs, ps', rfl, by simp⟩
    · split at h
      · cases h
      · obtain ⟨d, body, rest, ps', rfl, rfl⟩ := ih h
        exact ⟨c, d :: body, rest, ps', by simp, by simp⟩

theorem isLiteral_append {t : List Char} (h : isLiteral t = true) (u : List Char) :
    isLiteral (t ++ u) = true := by
  cases t with
  | nil => simp [isLiteral] at h
  | cons c t => simpa [isLiteral] using h

@[simp] theorem literal_mem_behind {t : List Char} :
    Piece.literal t ∈ behind held ps ↔ Piece.literal t ∈ ps := by
  unfold behind
  split <;> simp

/-- Literals stand between quotes. What is held of a literal begins with a quote all the time. -/
theorem quoted_of_split? {mode : Mode} (h : split? mode spot cs = some ps)
    (hspot : ∀ inside held, spot = .literal inside held → isLiteral held.reverse = true) :
    ∀ t, Piece.literal t ∈ ps → isLiteral t = true ∧ isLiteral t.reverse = true := by
  have hcode {held inner : List Char} {inside : Inside} (he : Spot.code held =
    .literal inside inner) :
      isLiteral inner.reverse = true := nomatch he
  fun_induction split? mode spot cs generalizing ps with
  | case1 | case2 | case6 | case12 | case15 => cases h
  | case3 =>
    obtain rfl := Option.some.inj h
    simp
  | case4 held cs ih | case5 held cs ih | case7 held c cs _ _ _ _ ih =>
    obtain ⟨ps', hps, rfl⟩ := Option.map_eq_some_iff.1 h
    simpa using ih hps fun _ _ => hcode
  | case8 held c cs _ _ _ _ _ ih =>
    obtain ⟨marked, hmarked, rfl⟩ := Option.map_eq_some_iff.1 h
    obtain ⟨ps', hps, rfl⟩ := Option.map_eq_some_iff.1 hmarked
    simpa using ih hps fun _ _ => hcode
  | case9 held c cs _ _ _ _ _ level hquote ih =>
    obtain ⟨ps', hps, rfl⟩ := Option.map_eq_some_iff.1 h
    simp only [literal_mem_behind]
    apply ih hps
    intro inside held he
    cases he
    simp [isLiteral, hquote]
  | case10 held c cs _ _ _ _ _ _ ih => exact ih h fun _ _ => hcode
  | case11 inside held c cs hcloses ih =>
    obtain ⟨ps', hps, rfl⟩ := Option.map_eq_some_iff.1 h
    obtain ⟨level, hsign⟩ := Inside.quote_of_closes hcloses
    intro t ht
    rcases List.mem_cons.1 ht with he | ht
    · cases he
      rw [List.reverse_cons, List.reverse_append, List.reverse_reverse]
      exact ⟨isLiteral_append (hspot inside held rfl) [c],
        by simp [isLiteral, quote?_of_sign hsign]⟩
    · exact ih hps (fun _ _ => hcode) t ht
  | case13 inside held c cs _ _ ih =>
    apply ih h
    intro inside' held' he
    cases he
    rw [List.reverse_cons]
    exact isLiteral_append (hspot inside held rfl) [c]
  | case14 spot cs ih | case16 spot c cs _ _ ih | case17 star spot c cs ih => exact ih h hspot

theorem mem_arrows {t : List Char} (ht : isLiteral t = true) {ts : List (List Char)} (h : t ∈ ts) :
    t ∈ arrows ts := by
  fun_induction arrows ts with
  | case1 ts ih =>
    simp only [List.mem_cons] at h ⊢
    rcases h with rfl | rfl | h
    · cases ht
    · cases ht
    · exact .inr (ih h)
  | case2 u ts _ ih =>
    simp only [List.mem_cons] at h ⊢
    exact h.imp_right ih
  | case3 => exact h

theorem split?_of_tokens? {ts : List (List Char)} (h : tokens? cs = some ts) :
    ∃ ps, split? .plain (.code []) cs = some ps ∧ arrows (ps.flatMap Piece.tokens) = ts ∧
      ∀ t, Piece.literal t ∈ ps → t ∈ ts ∧ isLiteral t = true ∧ isLiteral t.reverse = true := by
  obtain ⟨ps, hps, hts⟩ := Option.bind_eq_some_iff.1 h
  simp only at hts
  split at hts
  · cases hts
  · obtain rfl := Option.some.inj hts
    refine ⟨ps, hps, rfl, fun t ht => ?_⟩
    have hquoted := quoted_of_split? hps (fun _ _ he => nomatch he) t ht
    exact ⟨mem_arrows hquoted.1 (List.mem_flatMap.2 ⟨_, ht, by simp [Piece.tokens]⟩), hquoted⟩

end QualityGate.TypeShape
