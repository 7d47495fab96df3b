import QualityGate.Proofs.Json.Grammar

/-!
Functions on texts that keep the tokens of documents. Such a function carries a document of one
layout over to another, if it does so with what stands between the tokens, and leaves strict
documents as they are.
-/
namespace QualityGate.Json

variable {layout : Layout} {t : Literal} {c : Char} {ds cs mid back rest : List Char}

def isPlain (c : Char) : Bool := c != ',' && c != '/' && c != '\x22'

/-- A function on texts that keeps every token at the front of a text, commas only where no bracket
closes next. -/
structure KeepsTokens (f : List Char → List Char) : Prop where
  plain : ∀ c cs, isPlain c = true → f (c :: cs) = c :: f cs
  string : ∀ raw rest, Chars raw →
    f ('\x22' :: (raw ++ '\x22' :: rest)) = '\x22' :: (raw ++ '\x22' :: f rest)
  comma : ∀ cs, closesNext cs = false → f (',' :: cs) = ',' :: f cs

theorem isPlain_of_isDigit (h : c.isDigit = true) : isPlain c = true := by
  have hne {d : Char} (hd : d.isDigit = false) : c ≠ d := by
    rintro rfl
    exact absurd (h.symm.trans hd) (by decide)
  simp [isPlain, hne (d := ',') rfl, hne (d := '/') rfl, hne (d := '\x22') rfl]

theorem isPlain_of_isSpace (h : isSpace c = true) : isPlain c = true := by
  simp only [isSpace, Bool.or_eq_true, decide_eq_true_eq] at h
  rcases h with ((rfl | rfl) | rfl) | rfl <;> rfl

theorem Fraction.isPlain {fraction : List Char} (h : Fraction fraction) :
    ∀ c ∈ fraction, Json.isPlain c = true := by
  cases h with
  | absent => exact List.forall_mem_nil _
  | point hd => exact List.forall_mem_cons.2 ⟨rfl, fun c hc => isPlain_of_isDigit (hd.digit c hc)⟩

theorem Exponent.isPlain {exponent : List Char} (h : Exponent exponent) :
    ∀ c ∈ exponent, Json.isPlain c = true := by
  cases h with
  | absent => exact List.forall_mem_nil _
  | plain he hd =>
    refine List.forall_mem_cons.2 ⟨?_, fun c hc => isPlain_of_isDigit (hd.digit c hc)⟩
    rcases he with rfl | rfl <;> rfl
  | signed he hs hd =>
    have hdigits : ∀ c ∈ _, Json.isPlain c = true := fun c hc => isPlain_of_isDigit (hd.digit c hc)
    refine List.forall_mem_cons.2 ⟨?_, List.forall_mem_cons.2 ⟨?_, hdigits⟩⟩
    · rcases he with rfl | rfl <;> rfl
    · rcases hs with rfl | rfl <;> rfl

theorem Number.all_isPlain (h : Number ds) : ds.all isPlain = true := by
  rw [List.all_eq_true]
  have hnumeral {ds : List Char} (h : Numeral ds) : ∀ c ∈ ds, Json.isPlain c = true := by
    obtain ⟨whole, fraction, exponent, hw, hf, he, rfl⟩ := h
    have hwhole : ∀ c ∈ whole, Json.isPlain c = true :=
      fun c hc => isPlain_of_isDigit (hw.digit c hc)
    exact List.forall_mem_append.2 ⟨List.forall_mem_append.2 ⟨hwhole, hf.isPlain⟩, he.isPlain⟩
  cases h with
  | unsigned h => exact hnumeral h
  | minus h => exact List.forall_mem_cons.2 ⟨rfl, hnumeral h⟩

theorem KeepsTokens.append {f : List Char → List Char} (hf : KeepsTokens f)
    (h : ds.all isPlain = true) (rest : List Char) : f (ds ++ rest) = ds ++ f rest := by
  induction ds with
  | nil => rfl
  | cons c ds ih =>
    rw [List.all_cons, Bool.and_eq_true] at h
    rw [List.cons_append, hf.plain c _ h.1, ih h.2, List.cons_append]

/-- A function that keeps tokens, and turns what stands between them in one layout into what stands
there in another. -/
structure Carries (layout other : Layout) (f : List Char → List Char) :
    Prop extends KeepsTokens f where
  gap : ∀ {cs rest}, Gap layout.comments cs rest → Gap other.comments (f cs) (f rest)
  closing : ∀ {bracket cs rest}, bracket ∈ [']', '}'] → Closing layout bracket cs rest →
    Closing other bracket (f cs) (f rest)

namespace Carries

variable {other : Layout} {f : List Char → List Char}

mutual
theorem written (hf : Carries layout other f) {t : Literal} {cs rest : List Char}
    (h : Written layout t cs rest) : Written other t (f cs) (f rest) := by
  cases h with
  | null =>
    rw [hf.append rfl]
    exact .null
  | wordTrue =>
    rw [hf.append rfl]
    exact .wordTrue
  | wordFalse =>
    rw [hf.append rfl]
    exact .wordFalse
  | number h =>
    rw [hf.append h.all_isPlain]
    exact .number h
  | string h =>
    rw [hf.string _ _ h]
    exact .string h
  | emptyArray h =>
    rw [hf.plain _ _ rfl]
    exact .emptyArray (hf.closing (by simp) h)
  | array h =>
    rw [hf.plain _ _ rfl]
    exact .array (items hf h)
  | emptyObject h =>
    rw [hf.plain _ _ rfl]
    exact .emptyObject (hf.closing (by simp) h)
  | object h =>
    rw [hf.plain _ _ rfl]
    exact .object (entries hf h)

theorem items (hf : Carries layout other f) {ts : List Literal} {cs rest : List Char}
    (h : WrittenItems layout ts cs rest) : WrittenItems other ts (f cs) (f rest) := by
  cases h with
  | last hgap h hclose => exact .last (hf.gap hgap) (written hf h) (hf.closing (by simp) hclose)
  | more hgap h hcomma k =>
    have hnext := hf.gap hcomma
    rw [hf.comma _ k.closesNext_eq_false] at hnext
    exact .more (hf.gap hgap) (written hf h) hnext (items hf k)

theorem entry (hf : Carries layout other f) {e : List Char × Literal} {cs rest : List Char}
    (h : WrittenEntry layout e cs rest) : WrittenEntry other e (f cs) (f rest) := by
  cases h with
  | mk hgap hkey hcolon hvalue h =>
    have hquote := hf.gap hgap
    have hmid := hf.gap hcolon
    rw [hf.string _ _ hkey] at hquote
    rw [hf.plain _ _ rfl] at hmid
    exact .mk hquote hkey hmid (hf.gap hvalue) (written hf h)

theorem entries (hf : Carries layout other f) {es : List (List Char × Literal)}
    {cs rest : List Char} (h : WrittenEntries layout es cs rest) :
    WrittenEntries other es (f cs) (f rest) := by
  cases h with
  | last h hclose => exact .last (entry hf h) (hf.closing (by simp) hclose)
  | more h hcomma k =>
    have hnext := hf.gap hcomma
    rw [hf.comma _ k.closesNext_eq_false] at hnext
    exact .more (entry hf h) hnext (entries hf k)
end

/-- A document of one layout becomes the same document of the other. -/
theorem document (hf : Carries layout other f) (hnil : f [] = []) (h : Document layout t cs) :
    Document other t (f cs) := by
  obtain ⟨front, back, hfront, hwritten, hback⟩ := h
  exact ⟨f front, f back, hf.gap hfront, hf.written hwritten, hnil ▸ hf.gap hback⟩

end Carries

/-- A function on texts leaves what stands in front of the rest as it is. -/
def Kept (f : List Char → List Char) (cs rest : List Char) : Prop :=
  ∃ front, cs = front ++ rest ∧ f cs = front ++ f rest

namespace Kept

variable {f : List Char → List Char}

theorem refl (cs : List Char) : Kept f cs cs := ⟨[], rfl, rfl⟩

theorem trans (h : Kept f cs mid) (k : Kept f mid rest) : Kept f cs rest := by
  obtain ⟨front, rfl, hf⟩ := h
  obtain ⟨front', rfl, hf'⟩ := k
  exact ⟨front ++ front', by simp, by rw [hf, hf', List.append_assoc]⟩

theorem cons (h : f (c :: cs) = c :: f cs) (k : Kept f cs rest) : Kept f (c :: cs) rest :=
  trans ⟨[c], rfl, h⟩ k

theorem length_le (h : Kept f cs rest) : rest.length ≤ cs.length := by
  obtain ⟨front, rfl, -⟩ := h
  simp

end Kept

namespace KeepsTokens

variable {f : List Char → List Char}

theorem gap (hf : KeepsTokens f) (h : Gap false cs rest) : Kept f cs rest := by
  induction h using Gap.blanks with
  | done => exact .refl _
  | space hc _ ih => exact .cons (hf.plain _ _ (isPlain_of_isSpace hc)) ih

theorem closing (hf : KeepsTokens f) {bracket : Char} (hb : isPlain bracket = true)
    (h : Closing .strict bracket cs rest) : Kept f cs rest :=
  (hf.gap h.gap).trans (.cons (hf.plain _ _ hb) (.refl _))

theorem kept_string (hf : KeepsTokens f) {raw : List Char} (h : Chars raw) (rest : List Char) :
    Kept f ('\x22' :: (raw ++ '\x22' :: rest)) rest :=
  ⟨'\x22' :: (raw ++ ['\x22']), by simp, by simpa using hf.string raw rest h⟩

theorem comma_kept (hf : KeepsTokens f) (h : Gap false back (',' :: cs))
    (hc : closesNext cs = false) (k : Kept f cs rest) : Kept f back rest :=
  (hf.gap h).trans (.cons (hf.comma _ hc) k)

mutual
theorem written (hf : KeepsTokens f) {t : Literal} {cs rest : List Char}
    (h : Written .strict t cs rest) :
    Kept f cs rest := by
  cases h with
  | null => exact ⟨_, rfl, hf.append rfl rest⟩
  | wordTrue => exact ⟨_, rfl, hf.append rfl rest⟩
  | wordFalse => exact ⟨_, rfl, hf.append rfl rest⟩
  | number h => exact ⟨_, rfl, hf.append h.all_isPlain rest⟩
  | string h => exact hf.kept_string h _
  | emptyArray h => exact .cons (hf.plain _ _ rfl) (hf.closing rfl h)
  | array h => exact .cons (hf.plain _ _ rfl) (items hf h)
  | emptyObject h => exact .cons (hf.plain _ _ rfl) (hf.closing rfl h)
  | object h => exact .cons (hf.plain _ _ rfl) (entries hf h)

theorem items (hf : KeepsTokens f) {ts : List Literal} {cs rest : List Char}
    (h : WrittenItems .strict ts cs rest) : Kept f cs rest := by
  cases h with
  | last hgap h hclose => exact ((hf.gap hgap).trans (written hf h)).trans (hf.closing rfl hclose)
  | more hgap h hcomma k =>
    exact ((hf.gap hgap).trans (written hf h)).trans
      (hf.comma_kept hcomma k.closesNext_eq_false (items hf k))

theorem entry (hf : KeepsTokens f) {e : List Char × Literal} {cs rest : List Char}
    (h : WrittenEntry .strict e cs rest) : Kept f cs rest := by
  cases h with
  | mk hgap hkey hcolon hvalue h =>
    have hstring := (hf.gap hgap).trans (hf.kept_string hkey _)
    have hmid := (hf.gap hcolon).trans (.cons (hf.plain _ _ rfl) (hf.gap hvalue))
    exact (hstring.trans hmid).trans (written hf h)

theorem entries (hf : KeepsTokens f) {es : List (List Char × Literal)} {cs rest : List Char}
    (h : WrittenEntries .strict es cs rest) : Kept f cs rest := by
  cases h with
  | last h hclose => exact (entry hf h).trans (hf.closing rfl hclose)
  | more h hcomma k =>
    exact (entry hf h).trans (hf.comma_kept hcomma k.closesNext_eq_false (entries hf k))
end

/-- A strict document is kept as it is. -/
theorem document (hf : KeepsTokens f) (hnil : f [] = []) (h : Document .strict t cs) :
    f cs = cs := by
  obtain ⟨front, back, hfront, hwritten, hback⟩ := h
  obtain ⟨all, rfl, hall⟩ := ((hf.gap hfront).trans (hf.written hwritten)).trans (hf.gap hback)
  rw [hall, hnil]

end KeepsTokens

end QualityGate.Json
