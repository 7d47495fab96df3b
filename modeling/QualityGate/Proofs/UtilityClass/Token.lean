import QualityGate.UtilityClass.Token
import QualityGate.Proofs.Text.Words
import Mathlib.Data.List.Forall2
import Mathlib.Data.List.TakeWhile

/-!
How words spell classes. A word is read from the left: variants, each closed by a colon, a sign, and
a rest that is free text in brackets behind a family or else is divided at its last hyphen. Nothing
is lost on the way, and variants put in front of a word leave all other parts of its class as they
are.
-/
namespace QualityGate

namespace Text

variable {cs : List Char}

theorem dropWhile_isBlank (h : ∀ c ∈ cs.head?, isBlank c = false) : cs.dropWhile isBlank = cs := by
  cases cs with
  | nil => rfl
  | cons c cs => rw [List.dropWhile_cons, h c rfl, if_neg Bool.false_ne_true]

/-- A text without blanks at its ends is trimmed. -/
theorem trim_eq_self (hfirst : ∀ c ∈ cs.head?, isBlank c = false)
    (hlast : ∀ c ∈ cs.getLast?, isBlank c = false) : trim cs = cs := by
  rw [trim, dropWhile_isBlank hfirst, dropWhile_isBlank (by simpa using hlast),
    List.reverse_reverse]

end Text

namespace UtilityClass.Token

open Text

variable {table vs : List String} {cs word u v : List Char} {t : Token}

def variantText (vs : List String) : List Char := vs.flatMap fun v => v.toList ++ [':']

theorem variantText_cons (v : String) (vs : List String) :
    variantText (v :: vs) = v.toList ++ ':' :: variantText vs := by
  simp [variantText]

/-- A name up to the next colon is taken if the table has it, and ends the variants if not. -/
theorem takeVariants_name {held name : List Char} (h : ':' ∉ name) :
    takeVariants table held (name ++ ':' :: cs) =
    if String.ofList (held.reverse ++ name) ∈ table then
      (String.ofList (held.reverse ++ name) :: (takeVariants table [] cs).1,
        (takeVariants table [] cs).2)
    else ([], held.reverse ++ name ++ ':' :: cs) := by
  induction name generalizing held with
  | nil => simp [takeVariants]
  | cons c name ih =>
    obtain ⟨hc, hname⟩ := not_or.1 (mt List.mem_cons.2 h)
    rw [List.cons_append, takeVariants, if_neg (Ne.symm hc), ih hname]
    simp

theorem takeVariants_of_not_mem {held : List Char} (h : ':' ∉ cs) :
    takeVariants table held cs = ([], held.reverse ++ cs) := by
  induction cs generalizing held with
  | nil => simp [takeVariants]
  | cons c cs ih =>
    obtain ⟨hc, hcs⟩ := not_or.1 (mt List.mem_cons.2 h)
    rw [takeVariants, if_neg (Ne.symm hc), ih hcs]
    simp

theorem takeVariants_variantText (h : ∀ v ∈ vs, v ∈ table ∧ ':' ∉ v.toList) (cs : List Char) :
    takeVariants table [] (variantText vs ++ cs) =
      (vs ++ (takeVariants table [] cs).1, (takeVariants table [] cs).2) := by
  induction vs with
  | nil => rfl
  | cons v vs ih =>
    obtain ⟨⟨hv, hcolon⟩, hvs⟩ := List.forall_mem_cons.1 h
    rw [variantText_cons, List.append_assoc, List.cons_append, takeVariants_name hcolon, ih hvs]
    simp [hv]

/-- The part of a text before the first `c`. -/
theorem takeWhile_ne {c : Char} {front back : List Char} (h : c ∉ front) :
    (front ++ c :: back).takeWhile (· != c) = front := by
  rw [List.takeWhile_append_of_pos fun a ha => bne_iff_ne.2 (ne_of_mem_of_not_mem ha h)]
  simp

theorem eq_of_append_cons_eq {c : Char} {a b x y : List Char} (ha : c ∉ a) (hb : c ∉ b)
    (h : a ++ c :: x = b ++ c :: y) : a = b := by
  rw [← takeWhile_ne ha, h, takeWhile_ne hb]

/-- Variants are names of the table, they are taken as long as there are any, and no character is
lost. -/
theorem takeVariants_spec (table : List String) (cs : List Char) :
    cs = variantText (takeVariants table [] cs).1 ++ (takeVariants table [] cs).2 ∧
      (∀ v ∈ (takeVariants table [] cs).1, v ∈ table) ∧
      ∀ v ∈ table, ':' ∉ v.toList → ¬ v.toList ++ [':'] <+: (takeVariants table [] cs).2 := by
  induction hn : cs.length using Nat.strongRecOn generalizing cs with
  | ind n ih =>
    by_cases hcolon : ':' ∈ cs
    · obtain ⟨name, rest, rfl, hname⟩ := List.eq_append_cons_of_mem hcolon
      rw [takeVariants_name hname, List.reverse_nil, List.nil_append]
      split_ifs with hmem
      · obtain ⟨hrest, hnames, hends⟩ := ih rest.length (by simp [← hn]; omega) rest rfl
        refine ⟨?_, List.forall_mem_cons.2 ⟨hmem, hnames⟩, hends⟩
        rw [variantText_cons, List.append_assoc, List.cons_append, ← hrest, String.toList_ofList]
      · refine ⟨rfl, List.forall_mem_nil _, fun v hv hvcolon ⟨back, hback⟩ => hmem ?_⟩
        rw [List.append_assoc, List.singleton_append] at hback
        rwa [← eq_of_append_cons_eq hvcolon hname hback, String.ofList_toList]
    · rw [takeVariants_of_not_mem hcolon]
      refine ⟨rfl, List.forall_mem_nil _, fun v _ _ hstart => hcolon ?_⟩
      exact hstart.subset (List.mem_append_right _ List.mem_cons_self)

/-- Free text `v` in brackets behind a family `u`, the two joined by a hyphen. -/
structure Bracketed (u v cs : List Char) : Prop where
  family_ne_nil : u ≠ []
  family : ∀ c ∈ u, 'a' ≤ c ∧ c ≤ 'z' ∨ '0' ≤ c ∧ c ≤ '9' ∨ c = '-'
  value_ne_nil : v ≠ []
  value : '\n' ∉ v
  eq : cs = u ++ '-' :: '[' :: v ++ [']']

theorem isUtilityCharacter_iff {c : Char} : isUtilityCharacter c = true ↔
    'a' ≤ c ∧ c ≤ 'z' ∨ '0' ≤ c ∧ c ≤ '9' ∨ c = '-' := by
  have hlower : c.isLower = true ↔ 'a' ≤ c ∧ c ≤ 'z' :=
    Bool.and_eq_true_iff.trans (and_congr decide_eq_true_iff decide_eq_true_iff)
  have hdigit : c.isDigit = true ↔ '0' ≤ c ∧ c ≤ '9' :=
    Bool.and_eq_true_iff.trans (and_congr decide_eq_true_iff decide_eq_true_iff)
  rw [isUtilityCharacter, Bool.or_eq_true, Bool.or_eq_true, hlower, hdigit,
    decide_eq_true_iff, or_assoc]

theorem bracketed?_of_not_mem (h : '[' ∉ cs) : bracketed? cs = none := by
  have hall : cs.takeWhile (· != '[') = cs :=
    List.takeWhile_eq_self_iff.2 fun c hc => bne_iff_ne.2 (ne_of_mem_of_not_mem hc h)
  simp [bracketed?, hall]

theorem bracketed?_of_mem {front rest : List Char} (h : '[' ∉ front) :
    bracketed? (front ++ '[' :: rest) =
    if front.all isUtilityCharacter = true ∧ front.getLast? = some '-' ∧ 2 ≤ front.length ∧
        rest.getLast? = some ']' ∧ 2 ≤ rest.length ∧ '\n' ∉ rest then
      some (front.dropLast, rest.dropLast)
    else none := by
  simp [bracketed?, takeWhile_ne h, and_assoc]

theorem bracketed?_eq_some_iff : bracketed? cs = some (u, v) ↔ Bracketed u v cs := by
  constructor
  · intro h
    by_cases hmem : '[' ∈ cs
    · obtain ⟨front, rest, rfl, hfront⟩ := List.eq_append_cons_of_mem hmem
      rw [bracketed?_of_mem hfront] at h
      split_ifs at h with hok
      obtain ⟨hfamily, hhyphen, hlong, hclosing, hfull, hline⟩ := hok
      rw [List.all_eq_true] at hfamily
      obtain ⟨family, rfl⟩ := List.getLast?_eq_some_iff.1 hhyphen
      obtain ⟨value, rfl⟩ := List.getLast?_eq_some_iff.1 hclosing
      simp only [List.dropLast_concat, Option.some.injEq, Prod.mk.injEq] at h
      obtain ⟨rfl, rfl⟩ := h
      constructor
      case family_ne_nil =>
        rintro rfl
        simp at hlong
      case family =>
        exact fun c hc => isUtilityCharacter_iff.1 (hfamily c (List.mem_append_left _ hc))
      case value_ne_nil =>
        rintro rfl
        simp at hfull
      case value => exact fun hc => hline (List.mem_append_left _ hc)
      case eq => simp
    · rw [bracketed?_of_not_mem hmem] at h
      cases h
  · rintro ⟨hu, hfamily, hv, hvalue, rfl⟩
    have hfront : ∀ c ∈ u ++ ['-'], isUtilityCharacter c = true :=
      List.forall_mem_append.2 ⟨fun c hc => isUtilityCharacter_iff.2 (hfamily c hc),
        List.forall_mem_singleton.2 rfl⟩
    have hbracket : '[' ∉ u ++ ['-'] := fun hc => absurd (hfront _ hc) (by decide)
    have hulen := List.length_pos_iff.2 hu
    have hvlen := List.length_pos_iff.2 hv
    have hcs : u ++ '-' :: '[' :: v ++ [']'] = (u ++ ['-']) ++ '[' :: (v ++ [']']) := by simp
    rw [hcs, bracketed?_of_mem hbracket, if_pos ?_, List.dropLast_concat, List.dropLast_concat]
    refine ⟨List.all_eq_true.2 hfront, ?_, ?_, ?_, ?_, ?_⟩ <;> simp <;> omega

/-- A text is divided at its last hyphen, where it has one. -/
theorem splitValue_spec (cs : List Char) : '-' ∉ (splitValue cs).2 ∧
    (cs = (splitValue cs).1 ++ '-' :: (splitValue cs).2 ∨ '-' ∉ cs ∧ splitValue cs = (cs, [])) := by
  by_cases hmem : '-' ∈ cs
  · obtain ⟨back, front, hcs, hback⟩ := List.eq_append_cons_of_mem (List.mem_reverse.2 hmem)
    obtain rfl : cs = front.reverse ++ '-' :: back.reverse := by
      simpa using congrArg List.reverse hcs
    have hsplit :
        splitValue (front.reverse ++ '-' :: back.reverse) = (front.reverse, back.reverse) := by
      have hlength : front.length + (back.length + 1) - back.length - 1 = front.reverse.length := by
        simp
        omega
      have hlong : back.length ≠ front.length + (back.length + 1) := by omega
      simp [splitValue, takeWhile_ne hback, hlong, hlength]
    rw [hsplit]
    exact ⟨by simpa using hback, .inl rfl⟩
  · have hall : cs.reverse.takeWhile (· != '-') = cs.reverse :=
      List.takeWhile_eq_self_iff.2 fun c hc =>
        bne_iff_ne.2 (ne_of_mem_of_not_mem (List.mem_reverse.1 hc) hmem)
    have hsplit : splitValue cs = (cs, []) := by simp [splitValue, hall]
    rw [hsplit]
    exact ⟨List.not_mem_nil, .inr ⟨hmem, rfl⟩⟩

/-- What the class `t` makes of the part of a word behind variants and sign. -/
structure Parts (t : Token) (rest : List Char) : Prop where
  arbitrary : t.arbitrary = true ↔ ∃ u v, Bracketed u v rest
  bracketed : ∀ u v, Bracketed u v rest → t.utility.toList = u ∧ t.value.toList = v
  /-- Other classes are divided at the last hyphen. -/
  divided : t.arbitrary = false → '-' ∉ t.value.toList ∧
    (rest = t.utility.toList ++ '-' :: t.value.toList ∨ '-' ∉ rest ∧ rest = t.utility.toList ∧
      t.value = "")
  /-- Family and value are all of it, apart from a hyphen at its end. -/
  rest_eq : rest = t.base.toList ++ if t.arbitrary = false ∧
    rest.getLast? = some '-' then ['-'] else []

theorem Bracketed.unique {u' v' : List Char} (h : Bracketed u v cs) (h' : Bracketed u' v' cs) :
    u = u' ∧ v = v' := by
  rw [← bracketed?_eq_some_iff] at h h'
  simpa [h] using h'

theorem parts_of_bracketed (h : t.arbitrary = true)
    (hb : Bracketed t.utility.toList t.value.toList cs) :
    Parts t cs where
  arbitrary := iff_of_true h ⟨_, _, hb⟩
  bracketed u v hparts := hb.unique hparts
  divided hfalse := absurd (hfalse.symm.trans h) Bool.false_ne_true
  rest_eq := by
    have hvalue : ¬ t.value.isEmpty = true := by simpa using hb.value_ne_nil
    rw [if_neg (by simp [h]), base, if_neg hvalue, if_pos h, hb.eq]
    simp

theorem parts_of_divided (h : t.arbitrary = false) (hb : ∀ u v, ¬ Bracketed u v cs)
    (hvalue : '-' ∉ t.value.toList) (hdivided : cs = t.utility.toList ++ '-' :: t.value.toList ∨
      '-' ∉ cs ∧ cs = t.utility.toList ∧ t.value = "") : Parts t cs where
  arbitrary := iff_of_false (by simp [h]) fun ⟨u, v, hparts⟩ => hb u v hparts
  bracketed u v hparts := absurd hparts (hb u v)
  divided _ := ⟨hvalue, hdivided⟩
  rest_eq := by
    rcases hdivided with rfl | ⟨hhyphen, rfl, hempty⟩
    · by_cases hempty : t.value = ""
      · simp [base, h, hempty]
      · obtain ⟨value, last, hlast⟩ : ∃ value last, t.value.toList = value ++ [last] :=
          (List.eq_nil_or_concat' t.value.toList).resolve_left (by simpa using hempty)
        have hne : last ≠ '-' := by
          rintro rfl
          exact hvalue (by simp [hlast])
        have hlast : (t.utility.toList ++ '-' :: t.value.toList).getLast? ≠ some '-' := by
          rw [hlast, ← List.cons_append, ← List.append_assoc, List.getLast?_concat]
          simpa using hne
        rw [if_neg fun hc => hlast hc.2, base, if_neg (by simpa using hempty), if_neg (by simp [h])]
        simp
    · have hlast : t.utility.toList.getLast? ≠ some '-' :=
        fun hc => hhyphen (List.mem_of_getLast? hc)
      rw [if_neg fun hc => hlast hc.2, base, if_pos (by simp [hempty]), List.append_nil]

def signText (negative : Bool) : List Char := if negative then ['-'] else []

def isSigned (cs : List Char) : Bool := cs.head? == some '-'

def unsigned (cs : List Char) : List Char := if isSigned cs then cs.drop 1 else cs

theorem signText_unsigned (cs : List Char) : signText (isSigned cs) ++ unsigned cs = cs := by
  cases h : isSigned cs with
  | false => simp [signText, unsigned, h]
  | true =>
    obtain ⟨rest, rfl⟩ := List.head?_eq_some_iff.1 (beq_iff_eq.1 h)
    simp [signText, unsigned, h]

/-- Family and value, and whether the value stands in brackets. -/
def partsOf (rest : List Char) : List Char × List Char × Bool :=
  match bracketed? rest with
  | some (utility, value) => (utility, value, true)
  | none => ((splitValue rest).1, (splitValue rest).2, false)

theorem ofWord_eq (table : List String) (word : List Char) : ofWord table word =
    ⟨String.ofList word, (takeVariants table [] word).1, isSigned (takeVariants table [] word).2,
      String.ofList (partsOf (unsigned (takeVariants table [] word).2)).1,
      String.ofList (partsOf (unsigned (takeVariants table [] word).2)).2.1,
      (partsOf (unsigned (takeVariants table [] word).2)).2.2⟩ := by
  change (match bracketed? (unsigned (takeVariants table [] word).2) with
    | some (utility, value) => _
    | none => _) = _
  rw [partsOf]
  split <;> rfl

theorem parts_of_eq_partsOf (h : (t.utility.toList, t.value.toList, t.arbitrary) = partsOf cs) :
    Parts t cs := by
  rw [partsOf] at h
  split at h
  next u v hb =>
    obtain ⟨rfl, rfl, ht⟩ : t.utility.toList = u ∧ t.value.toList = v ∧ t.arbitrary = true := by
      simpa using h
    exact parts_of_bracketed ht (bracketed?_eq_some_iff.1 hb)
  next hb =>
    obtain ⟨hu, hv, ht⟩ : t.utility.toList = (splitValue cs).1 ∧
      t.value.toList = (splitValue cs).2 ∧
      t.arbitrary = false := by simpa using h
    obtain ⟨hvalue, hdivided⟩ := splitValue_spec cs
    refine parts_of_divided ht (fun u v hparts => ?_) (hv ▸ hvalue) ?_
    · rw [bracketed?_eq_some_iff.2 hparts] at hb
      cases hb
    · rw [hu, hv]
      refine hdivided.imp_right fun ⟨hhyphen, hsplit⟩ => ⟨hhyphen, by rw [hsplit], ?_⟩
      simpa [hsplit] using hv

/-- How a word spells the class `t`; `rest` is the part of it behind variants and sign. -/
structure Spelling (table : List String) (word : List Char) (t : Token) (rest : List Char) : Prop
    extends Parts t rest where
  raw : t.raw.toList = word
  word_eq : word = variantText t.variants ++ signText t.negative ++ rest
  variants : ∀ v ∈ t.variants, v ∈ table
  /-- No more variants follow. -/
  last_variant : ∀ v ∈ table, ':' ∉ v.toList → ¬ v.toList ++ [':'] <+: signText t.negative ++ rest
  negative : t.negative = false → rest.head? ≠ some '-'

/-- Every word spells a class. -/
theorem exists_spelling_ofWord (table : List String) (word : List Char) :
    ∃ rest, Spelling table word (ofWord table word) rest := by
  obtain ⟨hword, hvariants, hlast⟩ := takeVariants_spec table word
  rw [ofWord_eq]
  generalize takeVariants table [] word = split at hword hvariants hlast
  refine ⟨unsigned split.2, parts_of_eq_partsOf (by simp), by simp, ?eq, hvariants, ?last, ?sign⟩
  case eq => rwa [List.append_assoc, signText_unsigned]
  case last => rwa [signText_unsigned]
  case sign =>
    intro (hsign : isSigned split.2 = false)
    rw [unsigned, if_neg (by simp [hsign])]
    simpa [isSigned] using hsign

theorem ofString?_of_trimmed (hne : cs ≠ []) (h : trim cs = cs) :
    ofString? table (String.ofList cs) = some (ofWord table cs) := by
  simp [ofString?, h, hne]

theorem ofClasses_eq (table : List String) (text : String) :
    ofClasses table text = (words text.toList).map (ofWord table) := by
  rw [ofClasses, ← List.filterMap_eq_map]
  refine List.filterMap_congr fun word hword => ?_
  obtain ⟨hne, hblank⟩ := not_isBlank_of_mem_words hword
  refine ofString?_of_trimmed hne (trim_eq_self ?_ ?_)
  · exact fun c hc => hblank c (List.mem_of_head? hc)
  · exact fun c hc => hblank c (List.mem_of_getLast? hc)

/-- A class list has one class for each piece between blanks that is not empty, in their order. The
piece is spelled by the variants of the class, each with a colon behind it, its sign, its family and
its value, and one more hyphen where it has no value in brackets and ends with one. -/
theorem ofClasses_spells (table : List String) (text : String) :
    List.Forall₂ (fun word t => ∃ rest, Spelling table word t rest)
      ((text.toList.splitOnP isBlank).filter (· ≠ [])) (ofClasses table text) := by
  rw [← words_eq, ofClasses_eq, List.forall₂_map_right_iff, List.forall₂_same]
  exact fun word _ => exists_spelling_ofWord table word

theorem toList_intercalate (vs : List String) (b : String) :
    (":".intercalate (vs ++ [b])).toList = variantText vs ++ b.toList := by
  rw [String.toList_intercalate]
  induction vs with
  | nil => simp [variantText]
  | cons v vs ih =>
    rw [List.cons_append, List.map_cons, List.intercalate_cons_of_ne_nil (by simp), ih,
      variantText_cons]
    simp

theorem ofWord_variantText (h : ∀ v ∈ vs, v ∈ table ∧ ':' ∉ v.toList) (cs : List Char) :
    ofWord table (variantText vs ++ cs) = { ofWord table cs with
      raw := String.ofList (variantText vs ++ cs), variants :=
  vs ++ (ofWord table cs).variants } := by
  simp only [ofWord_eq, takeVariants_variantText h]

theorem head?_variantText_append (hvs : ∀ v ∈ vs, ∀ c ∈ v.toList, isBlank c = false)
    (h : ∀ c ∈ cs.head?, isBlank c = false) :
    ∀ c ∈ (variantText vs ++ cs).head?, isBlank c = false := by
  cases vs with
  | nil => exact h
  | cons v vs =>
    intro c hc
    rw [variantText_cons] at hc
    cases hv : v.toList with
    | nil =>
      rw [hv] at hc
      obtain rfl := Option.some.inj hc
      decide
    | cons d ds =>
      rw [hv] at hc
      obtain rfl := Option.some.inj hc
      exact hvs v List.mem_cons_self d (hv ▸ List.mem_cons_self)

/-- Variants of the table in front of a class come before its own variants, and leave its sign,
family and value as they are. -/
theorem ofString?_intercalate {b : String}
    (htable : ∀ v ∈ table, ∀ c ∈ v.toList, c ≠ ':' ∧ isBlank c = false) (hvs : ∀ v ∈ vs, v ∈ table)
    (hb : b ≠ "") (hfirst : ∀ c ∈ b.toList.head?, isBlank c = false)
    (hlast : ∀ c ∈ b.toList.getLast?, isBlank c = false) :
    ∃ t, ofString? table b = some t ∧ ofString? table (":".intercalate (vs ++ [b])) =
      some { t with raw := ":".intercalate (vs ++ [b]), variants := vs ++ t.variants } := by
  have hne : b.toList ≠ [] := by simpa using hb
  have htrim := trim_eq_self hfirst hlast
  have htrims : trim (variantText vs ++ b.toList) = variantText vs ++ b.toList := by
    refine trim_eq_self (head?_variantText_append (fun v hv c hc =>
      (htable v (hvs v hv) c hc).2) hfirst) ?_
    rwa [List.getLast?_append_of_ne_nil _ hne]
  have hnames : ∀ v ∈ vs, v ∈ table ∧ ':' ∉ v.toList := fun v hv =>
    ⟨hvs v hv, fun hc => (htable v (hvs v hv) ':' hc).1 rfl⟩
  have htext : ":".intercalate (vs ++ [b]) = String.ofList (variantText vs ++ b.toList) := by
    rw [← toList_intercalate, String.ofList_toList]
  refine ⟨ofWord table b.toList, ?_, ?_⟩
  · simpa using ofString?_of_trimmed hne htrim
  · rw [htext, ofString?_of_trimmed (by simp [hne]) htrims, ofWord_variantText hnames]

/-- The class has a variant of its own, a sign, and a colon in its value. -/
theorem ofString?_of_stacked :
    (∀ v ∈ ["sm", "hover", "focus"], ∀ c ∈ v.toList, c ≠ ':' ∧ isBlank c = false) ∧
      ofString? ["sm", "hover", "focus"] "sm:hover:focus:-w-[a:b]" =
        some ⟨"sm:hover:focus:-w-[a:b]", ["sm", "hover", "focus"], true, "w", "a:b", true⟩ := by
  have hnames :
      (["sm", "hover", "focus"].all fun v => v.toList.all fun c => c != ':' && !isBlank c) =
        true := by
    decide +kernel
  have htable : ∀ v ∈ ["sm", "hover", "focus"], ∀ c ∈ v.toList, c ≠ ':' ∧ isBlank c = false := by
    simpa only [List.all_eq_true, Bool.and_eq_true, bne_iff_ne, Bool.not_eq_true'] using hnames
  obtain ⟨t, ht, hstacked⟩ :=
    ofString?_intercalate htable (List.subset_append_left ["sm", "hover"] ["focus"])
    (by decide : "focus:-w-[a:b]" ≠ "") (by simp [isBlank]) (by simp [isBlank])
  have hbase : ofString? ["sm", "hover", "focus"] "focus:-w-[a:b]" =
      some ⟨"focus:-w-[a:b]", ["focus"], true, "w", "a:b", true⟩ := by decide +kernel
  obtain rfl := Option.some.inj (ht.symm.trans hbase)
  have htext :
      ":".intercalate (["sm", "hover"] ++ ["focus:-w-[a:b]"]) = "sm:hover:focus:-w-[a:b]" := by
    decide +kernel
  rw [htext] at hstacked
  exact ⟨htable, hstacked⟩

end UtilityClass.Token
end QualityGate
