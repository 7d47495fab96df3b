import QualityGate.Decimal.Ratio
import QualityGate.Json.Printer
import QualityGate.Json.Reader
import Mathlib.Data.List.TakeDrop

/-!
Numbers as they are written in documents. A number is read as far as it goes, and what is read has
its form; so has what is written for a count or for a ratio.
-/
namespace QualityGate.Json

structure Digits (ds : List Char) : Prop where
  ne_nil : ds ≠ []
  digit : ∀ c ∈ ds, c.isDigit = true

def NoDigit (rest : List Char) : Prop := ∀ c ∈ rest.head?, c.isDigit = false

/-- What may stand right behind a value: a blank, a comma or a closing bracket. -/
def endsValue (c : Char) : Bool := isSpace c || c = ',' || c = ']' || c = '}'

def Ends (rest : List Char) : Prop := ∀ c ∈ rest.head?, endsValue c = true

/-- Digits without needless zeros. -/
structure Whole (ds : List Char) : Prop extends Digits ds where
  zero : ds.head? = some '0' → ds = ['0']

inductive Fraction : List Char → Prop
  | absent : Fraction []
  | point {ds : List Char} (h : Digits ds) : Fraction ('.' :: ds)

inductive Exponent : List Char → Prop
  | absent : Exponent []
  | plain {e : Char} {ds : List Char} (he : e = 'e' ∨ e = 'E') (h : Digits ds) : Exponent (e :: ds)
  | signed {e sign : Char} {ds : List Char} (he : e = 'e' ∨ e = 'E') (hs : sign = '+' ∨ sign = '-')
    (h : Digits ds) : Exponent (e :: sign :: ds)

def Numeral (ds : List Char) : Prop :=
  ∃ whole fraction exponent, Whole whole ∧ Fraction fraction ∧ Exponent exponent ∧
    ds = whole ++ fraction ++ exponent

inductive Number : List Char → Prop
  | unsigned {ds : List Char} (h : Numeral ds) : Number ds
  | minus {ds : List Char} (h : Numeral ds) : Number ('-' :: ds)

variable {ds rest whole fraction exponent : List Char}

theorem digits1?_append (h : Digits ds) (hr : NoDigit rest) :
    digits1? (ds ++ rest) = some (ds, rest) := by
  have htake : rest.takeWhile Char.isDigit = [] := by
    cases rest with
    | nil => rfl
    | cons c cs => rw [List.takeWhile_cons_of_neg (by simp [hr c rfl])]
  have hdrop : rest.dropWhile Char.isDigit = rest := by
    cases rest with
    | nil => rfl
    | cons c cs => rw [List.dropWhile_cons_of_neg (by simp [hr c rfl])]
  have hspan : digits (ds ++ rest) = (ds, rest) := by
    rw [digits, List.span_eq_takeWhile_dropWhile, List.takeWhile_append_of_pos h.digit,
      List.dropWhile_append_of_pos h.digit, htake, hdrop, List.append_nil]
  simp only [digits1?, hspan, List.isEmpty_iff, h.ne_nil, if_false]

theorem endsValue_iff {c : Char} :
    endsValue c = true ↔ c ∈ [' ', '\n', '\t', '\r', ',', ']', '}'] := by
  simp [endsValue, isSpace, or_assoc]

theorem Ends.head?_ne {c : Char} (h : Ends rest) (hc : endsValue c = false) : rest.head? ≠ some c :=
  fun he => absurd (h c he) (by simp [hc])

theorem Ends.noDigit (h : Ends rest) : NoDigit rest := by
  intro c hc
  have hmem := endsValue_iff.1 (h c hc)
  simp only [List.mem_cons, List.not_mem_nil, or_false] at hmem
  rcases hmem with rfl | rfl | rfl | rfl | rfl | rfl | rfl <;> rfl

theorem Exponent.noDigit (h : Exponent exponent) (hr : Ends rest) : NoDigit (exponent ++ rest) := by
  cases h with
  | absent => exact hr.noDigit
  | plain he => rcases he with rfl | rfl <;> simp [NoDigit]
  | signed he => rcases he with rfl | rfl <;> simp [NoDigit]

theorem Fraction.noDigit (h : Fraction fraction) (hr : NoDigit rest) :
    NoDigit (fraction ++ rest) := by
  cases h with
  | absent => exact hr
  | point => simp [NoDigit]

theorem Whole.read (h : Whole whole) (hr : NoDigit rest) :
    whole? (whole ++ rest) = some (whole, rest) := by
  unfold whole?
  split
  · next cs hcs =>
    obtain rfl : whole = ['0'] := by
      refine h.zero ?_
      cases whole with
      | nil => exact absurd rfl h.ne_nil
      | cons c ds => rw [List.cons_append, List.cons.injEq] at hcs; rw [List.head?_cons, hcs.1]
    obtain rfl : rest = cs := by simpa using hcs
    have hnot : (rest.head?.map Char.isDigit == some true) = false := by
      cases hc : rest.head? with
      | none => rfl
      | some c => simp [hr c hc]
    rw [hnot]
    rfl
  · exact digits1?_append h.toDigits hr

theorem Fraction.read (h : Fraction fraction) (hr : NoDigit rest) (hp : rest.head? ≠ some '.') :
    fraction? (fraction ++ rest) = some (fraction, rest) := by
  cases h with
  | absent =>
    rw [List.nil_append, fraction?]
    rintro cs rfl
    exact hp rfl
  | point hd =>
    rw [List.cons_append, fraction?, digits1?_append hd hr]
    rfl

theorem Exponent.read (h : Exponent exponent) (hr : Ends rest) :
    exponent? (exponent ++ rest) = some (exponent, rest) := by
  cases h with
  | absent =>
    cases rest with
    | nil => rfl
    | cons c cs =>
      have hlow : c ≠ 'e' := fun he => hr.head?_ne (c := 'e') rfl (by rw [List.head?_cons, he])
      have hhigh : c ≠ 'E' := fun he => hr.head?_ne (c := 'E') rfl (by rw [List.head?_cons, he])
      simp [exponent?, hlow, hhigh]
  | @plain e ds he hd =>
    have hread := digits1?_append hd hr.noDigit
    obtain ⟨d, ds, rfl⟩ := List.exists_cons_of_ne_nil hd.ne_nil
    have hdigit := hd.digit d List.mem_cons_self
    have hplus : d ≠ '+' := by rintro rfl; simp at hdigit
    have hminus : d ≠ '-' := by rintro rfl; simp at hdigit
    rw [List.cons_append] at hread
    rcases he with rfl | rfl <;> simp [exponent?, hplus, hminus, hread]
  | signed he hs hd =>
    have hread := digits1?_append hd hr.noDigit
    rcases he with rfl | rfl <;> rcases hs with rfl | rfl <;> simp [exponent?, hread]

theorem Exponent.head?_ne_point (h : Exponent exponent) (hr : Ends rest) :
    (exponent ++ rest).head? ≠ some '.' := by
  cases h with
  | absent => exact hr.head?_ne rfl
  | plain he => rcases he with rfl | rfl <;> simp
  | signed he => rcases he with rfl | rfl <;> simp

/-- A number starts with a digit. -/
theorem Numeral.exists_cons (h : Numeral ds) : ∃ c cs, ds = c :: cs ∧ c.isDigit = true := by
  obtain ⟨whole, fraction, exponent, hw, -, -, rfl⟩ := h
  cases whole with
  | nil => exact absurd rfl hw.ne_nil
  | cons c cs => exact ⟨c, cs ++ fraction ++ exponent, rfl, hw.digit c List.mem_cons_self⟩

theorem Number.exists_cons (h : Number ds) :
    ∃ c cs, ds = c :: cs ∧ (c.isDigit = true ∨ c = '-') := by
  cases h with
  | unsigned h =>
    obtain ⟨c, cs, hds, hdigit⟩ := h.exists_cons
    exact ⟨c, cs, hds, .inl hdigit⟩
  | minus => exact ⟨_, _, rfl, .inr rfl⟩

/-- The three parts are read one after the other. -/
theorem Numeral.read_parts (h : Numeral ds) (hr : Ends rest) :
    ∃ whole fraction exponent, whole? (ds ++ rest) = some (whole, fraction ++ (exponent ++ rest)) ∧
      fraction? (fraction ++ (exponent ++ rest)) = some (fraction, exponent ++ rest) ∧
      exponent? (exponent ++ rest) = some (exponent, rest) ∧
      ds = whole ++ fraction ++ exponent := by
  obtain ⟨whole, fraction, exponent, hw, hf, he, rfl⟩ := h
  have hwhole := hw.read (hf.noDigit (he.noDigit hr))
  refine ⟨whole, fraction, exponent, ?_, hf.read (he.noDigit hr) (he.head?_ne_point hr),
    he.read hr, rfl⟩
  rw [List.append_assoc, List.append_assoc, hwhole]

theorem Number.read (h : Number ds) (hr : Ends rest) :
    readNumber (ds ++ rest) = some (ds, rest) := by
  cases h with
  | minus h =>
    obtain ⟨whole, fraction, exponent, hw, hf, he, rfl⟩ := h.read_parts hr
    simp only [List.cons_append, readNumber, hw, hf, he, Option.bind_eq_bind, Option.bind_some]
    rfl
  | unsigned h =>
    obtain ⟨c, cs, hc, hdigit⟩ := h.exists_cons
    obtain ⟨whole, fraction, exponent, hw, hf, he, hds⟩ := h.read_parts hr
    have hsign : c ≠ '-' := by
      rintro rfl
      simp at hdigit
    rw [hc, List.cons_append] at hw ⊢
    rw [readNumber]
    · simp only [hw, hf, he, Option.bind_eq_bind, Option.bind_some]
      rw [← hc, hds]
      rfl
    · exact fun _ hs => hsign (List.cons.inj hs).1

theorem Whole.singleton {c : Char} (h : c.isDigit = true) : Whole [c] :=
  ⟨⟨List.cons_ne_nil _ _, List.forall_mem_singleton.2 h⟩, fun hz => by simpa using hz⟩

theorem digits1?_sound {cs : List Char} (h : digits1? cs = some (ds, rest)) :
    Digits ds ∧ cs = ds ++ rest := by
  rw [digits1?, digits, List.span_eq_takeWhile_dropWhile] at h
  simp only at h
  split_ifs at h with hempty
  obtain ⟨rfl, rfl⟩ := Prod.mk.inj (Option.some.inj h)
  refine ⟨⟨by simpa using hempty, ?_⟩, List.takeWhile_append_dropWhile.symm⟩
  exact List.all_eq_true.1 List.all_takeWhile

theorem whole?_sound {cs : List Char} (h : whole? cs = some (whole, rest)) :
    Whole whole ∧ cs = whole ++ rest := by
  unfold whole? at h
  split at h
  · split_ifs at h
    obtain ⟨rfl, rfl⟩ := Prod.mk.inj (Option.some.inj h)
    exact ⟨.singleton rfl, rfl⟩
  · next hzero =>
    obtain ⟨hd, rfl⟩ := digits1?_sound h
    refine ⟨⟨hd, fun hhead => ?_⟩, rfl⟩
    obtain ⟨c, cs, rfl⟩ := List.exists_cons_of_ne_nil hd.ne_nil
    obtain rfl : c = '0' := Option.some.inj hhead
    exact absurd rfl (hzero (cs ++ rest))

theorem fraction?_sound {cs : List Char} (h : fraction? cs = some (fraction, rest)) :
    Fraction fraction ∧ cs = fraction ++ rest := by
  unfold fraction? at h
  split at h
  · obtain ⟨⟨ds, rest⟩, hread, he⟩ := Option.map_eq_some_iff.1 h
    obtain ⟨rfl, rfl⟩ := Prod.mk.inj he
    obtain ⟨hd, rfl⟩ := digits1?_sound hread
    exact ⟨.point hd, rfl⟩
  · obtain ⟨rfl, rfl⟩ := Prod.mk.inj (Option.some.inj h)
    exact ⟨.absent, rfl⟩

theorem exponent?_sound {cs : List Char} (h : exponent? cs = some (exponent, rest)) :
    Exponent exponent ∧ cs = exponent ++ rest := by
  unfold exponent? at h
  split at h
  · split_ifs at h with he
    · rw [Bool.or_eq_true, decide_eq_true_eq, decide_eq_true_eq] at he
      split at h
      · split_ifs at h with hs
        · rw [Bool.or_eq_true, decide_eq_true_eq, decide_eq_true_eq] at hs
          obtain ⟨⟨ds, rest⟩, hread, hparts⟩ := Option.map_eq_some_iff.1 h
          obtain ⟨rfl, rfl⟩ := Prod.mk.inj hparts
          obtain ⟨hd, rfl⟩ := digits1?_sound hread
          exact ⟨.signed he hs hd, rfl⟩
        · obtain ⟨⟨ds, rest⟩, hread, hparts⟩ := Option.map_eq_some_iff.1 h
          obtain ⟨rfl, rfl⟩ := Prod.mk.inj hparts
          obtain ⟨hd, hcs⟩ := digits1?_sound hread
          exact ⟨.plain he hd, by rw [hcs]; rfl⟩
      · simp at h
    · obtain ⟨rfl, rfl⟩ := Prod.mk.inj (Option.some.inj h)
      exact ⟨.absent, rfl⟩
  · obtain ⟨rfl, rfl⟩ := Prod.mk.inj (Option.some.inj h)
    exact ⟨.absent, rfl⟩

/-- What is read as a number has the form of one. -/
theorem readNumber_sound {cs : List Char} (h : readNumber cs = some (ds, rest)) :
    Number ds ∧ cs = ds ++ rest := by
  simp only [readNumber, Option.bind_eq_bind, Option.pure_def] at h
  obtain ⟨⟨whole, r₁⟩, hwhole, h⟩ := Option.bind_eq_some_iff.1 h
  obtain ⟨⟨fraction, r₂⟩, hfraction, h⟩ := Option.bind_eq_some_iff.1 h
  obtain ⟨⟨exponent, r₃⟩, hexponent, h⟩ := Option.bind_eq_some_iff.1 h
  obtain ⟨hds, rfl⟩ := Prod.mk.inj (Option.some.inj h)
  obtain ⟨hw, hcs⟩ := whole?_sound hwhole
  obtain ⟨hf, rfl⟩ := fraction?_sound hfraction
  obtain ⟨he, rfl⟩ := exponent?_sound hexponent
  have hnumeral : Numeral (whole ++ fraction ++ exponent) :=
    ⟨whole, fraction, exponent, hw, hf, he, rfl⟩
  split at hcs
  · obtain rfl : '-' :: (whole ++ fraction ++ exponent) = ds := by simpa using hds
    exact ⟨.minus hnumeral, by simpa using hcs⟩
  · obtain rfl : whole ++ fraction ++ exponent = ds := by simpa using hds
    exact ⟨.unsigned hnumeral, by simpa using hcs⟩

theorem eq_zero_of_head?_toDigits {n : ℕ} (h : (Nat.toDigits 10 n).head? = some '0') : n = 0 := by
  induction n using Nat.strongRecOn with
  | ind n ih =>
    rw [Nat.toDigits_eq_if (by decide)] at h
    split_ifs at h with hn
    · simpa using h
    · obtain ⟨c, cs, hfront⟩ :=
        List.exists_cons_of_ne_nil (Nat.toDigits_ne_nil (n := n / 10) (b := 10))
      rw [hfront, List.cons_append, List.head?_cons] at h
      have hzero := ih (n / 10) (by omega) (by rw [hfront, List.head?_cons, h])
      omega

theorem whole_toString (n : ℕ) : Whole (toString n).toList := by
  rw [Nat.toString_eq_ofList_toDigits, String.toList_ofList]
  refine ⟨⟨Nat.toDigits_ne_nil, fun c hc => ?_⟩, fun h => ?_⟩
  · exact Nat.isDigit_of_mem_toDigits (by decide) (by decide) hc
  · rw [eq_zero_of_head?_toDigits h, Nat.toDigits_zero]

theorem Numeral.nat (n : ℕ) : Numeral (toString n).toList :=
  ⟨_, [], [], whole_toString n, .absent, .absent, by simp⟩

theorem Numeral.write (d : Decimal.Digits) : Numeral d.write := by
  have hdigits := (whole_toString d.digits).toDigits
  have hshift := (whole_toString (d.shift + 1)).toDigits
  unfold Decimal.Digits.write
  split_ifs with hsmall
  · have hzeros : Digits (List.replicate d.shift '0' ++ (toString d.digits).toList) := by
      refine ⟨List.append_ne_nil_of_right_ne_nil _ hdigits.ne_nil, fun c hc => ?_⟩
      rcases List.mem_append.1 hc with hc | hc
      · rw [List.eq_of_mem_replicate hc]
        rfl
      · exact hdigits.digit c hc
    exact ⟨['0'], _, [], .singleton rfl, .point hzeros, .absent, by simp⟩
  · simp only
    split
    · next c hc =>
      rw [hc] at hdigits
      exact ⟨[c], [], _, .singleton (hdigits.digit c List.mem_cons_self), .absent,
        .signed (.inl rfl) (.inr rfl) hshift, rfl⟩
    · next c cs hcs hc =>
      rw [hc] at hdigits
      have hrest : Digits cs := ⟨hcs, fun e he => hdigits.digit e (List.mem_cons_of_mem _ he)⟩
      exact ⟨[c], _, _, .singleton (hdigits.digit c List.mem_cons_self), .point hrest,
        .signed (.inl rfl) (.inr rfl) hshift, rfl⟩
    · next hnil => exact absurd hnil hdigits.ne_nil

theorem Numeral.ratio (part whole : ℕ) : Numeral (Decimal.ratio part whole) := by
  have htenth {c : Char} (h : c.isDigit = true) : Numeral [c, '.', '0'] :=
    ⟨[c], ['.', '0'], [], .singleton h, .point (Whole.singleton rfl).toDigits, .absent, rfl⟩
  unfold Decimal.ratio
  split_ifs
  · exact htenth rfl
  · simp only
    split_ifs
    · exact htenth rfl
    · exact .write _

end QualityGate.Json
