import QualityGate.Proofs.Json.Reading

/-!
Documents with comments and trailing commas, brought into strict form.
-/
namespace QualityGate.Json

variable {layout : Layout} {commas : Bool} {t : Literal} {c : Char} {body raw cs rest : List Char}

attribute [local simp] dropComments dropCommas

theorem ne_of_hexDigit? (h : (hexDigit? c).isSome = true) : c ≠ '\x22' ∧ c ≠ '\\' := by
  constructor <;> rintro rfl <;> simp [hexDigit?] at h

/-- What copies the two characters of an escape at once, and all others one by one, copies a string
up to its closing quote. -/
theorem Chars.copied {f g : List Char → List Char}
    (hescape : ∀ c cs, g ('\\' :: c :: cs) = '\\' :: c :: g cs)
    (hplain : ∀ c cs, c ≠ '\x22' → c ≠ '\\' → g (c :: cs) = c :: g cs)
    (hquote : ∀ cs, g ('\x22' :: cs) = '\x22' :: f cs) (h : Chars raw) (rest : List Char) :
    g (raw ++ '\x22' :: rest) = raw ++ '\x22' :: f rest := by
  induction h with
  | nil => exact hquote rest
  | plain hq hs _ _ ih => rw [List.cons_append, hplain _ _ hq hs, ih, List.cons_append]
  | escape _ _ ih => simp only [List.cons_append, hescape, ih]
  | @unicode a b c d cs hex _ ih =>
    have hhex (x : Char) (hx : x ∈ [a, b, c, d]) (cs : List Char) : g (x :: cs) = x :: g cs :=
      hplain x cs (ne_of_hexDigit? (hex x hx)).1 (ne_of_hexDigit? (hex x hx)).2
    simp only [List.cons_append, hescape]
    rw [hhex a (by simp), hhex b (by simp), hhex c (by simp), hhex d (by simp), ih]

theorem dropComments_cons (hslash : c ≠ '/') (hquote : c ≠ '\x22') (cs : List Char) :
    dropComments .plain (c :: cs) = c :: dropComments .plain cs := by
  rw [dropComments, if_neg hquote]
  · exact fun _ he => absurd he hslash
  · exact fun _ he => absurd he hslash

theorem dropComments_string (h : Chars raw) (rest : List Char) :
    dropComments .plain ('\x22' :: (raw ++ '\x22' :: rest)) =
      '\x22' :: (raw ++ '\x22' :: dropComments .plain rest) := by
  rw [dropComments, if_pos rfl]
  · refine congrArg _ (Chars.copied (fun c cs => ?_) (fun c cs hq hs => ?_) (fun cs => ?_) h rest)
    · rw [dropComments]
    · rw [dropComments, if_neg hq]
      exact fun _ _ he => absurd he hs
    · rw [dropComments, if_pos rfl]
      exact fun _ _ he => absurd he (by decide)
  · exact fun _ he => absurd he (by decide)
  · exact fun _ he => absurd he (by decide)

theorem keepsTokens_dropComments : KeepsTokens (dropComments .plain) where
  plain c cs h := by
    simp only [isPlain, Bool.and_eq_true, bne_iff_ne] at h
    exact dropComments_cons h.1.2 h.2 cs
  string _ _ h := dropComments_string h _
  comma cs _ := dropComments_cons (by decide) (by decide) cs

theorem dropComments_line (h : '\n' ∉ body) (cs : List Char) :
    dropComments .line (body ++ '\n' :: cs) = '\n' :: dropComments .plain cs := by
  induction body with
  | nil => rfl
  | cons c body ih =>
    simp only [List.mem_cons, not_or] at h
    rw [List.cons_append, dropComments, if_neg (Ne.symm h.1), ih h.2]

theorem dropComments_lastLine (h : '\n' ∉ body) : dropComments .line body = [] := by
  induction body with
  | nil => rfl
  | cons c body ih =>
    simp only [List.mem_cons, not_or] at h
    rw [dropComments, if_neg (Ne.symm h.1), ih h.2]

/-- A comment in stars ends with the first star that has a slash behind it. -/
theorem dropComments_starred {star : Bool} (h : ¬ ['*', '/'] <:+: body)
    (hstar : star = true → body.head? ≠ some '/') (cs : List Char) :
    dropComments (.starred star) (body ++ '*' :: '/' :: cs) = dropComments .plain cs := by
  induction body generalizing star with
  | nil => simp
  | cons c body ih =>
    have hno : (star && decide (c = '/')) = false := by
      cases star with
      | false => rfl
      | true => simpa using hstar rfl
    rw [List.cons_append, dropComments, hno]
    refine ih (fun hin => h (hin.trans (List.suffix_cons c body).isInfix)) fun hc hb => h ?_
    rw [decide_eq_true_eq] at hc
    obtain ⟨tail, rfl⟩ := List.head?_eq_some_iff.1 hb
    exact hc ▸ (List.prefix_append ['*', '/'] tail).isInfix

/-- Of what stands between two tokens the blanks are left. -/
theorem Gap.dropComments {comments : Bool} (h : Gap comments cs rest) :
    Gap false (dropComments .plain cs) (dropComments .plain rest) := by
  induction h with
  | done => exact .done
  | space hc _ ih =>
    rw [keepsTokens_dropComments.plain _ _ (isPlain_of_isSpace hc)]
    exact .space hc ih
  | line _ hbody _ ih =>
    rw [Json.dropComments, dropComments_line hbody]
    exact .space rfl ih
  | @lastLine body _ hbody =>
    have hline : Json.dropComments .plain ('/' :: '/' :: body) = Json.dropComments .line body := by
      rw [Json.dropComments]
    rw [hline, dropComments_lastLine hbody]
    exact .done
  | starred _ hbody _ ih =>
    rw [Json.dropComments, dropComments_starred hbody (by simp)]
    exact ih

theorem isPlain_of_bracket (h : c ∈ [']', '}']) : isPlain c = true := by
  simp only [List.mem_cons, List.not_mem_nil, or_false] at h
  rcases h with rfl | rfl <;> rfl

theorem carries_dropComments : Carries layout ⟨false, layout.commas⟩ (dropComments .plain) where
  toKeepsTokens := keepsTokens_dropComments
  gap h := h.dropComments
  closing hb h := by
    have hbracket (cs : List Char) := keepsTokens_dropComments.plain _ cs (isPlain_of_bracket hb)
    cases h with
    | bare h => exact .bare (hbracket _ ▸ h.dropComments)
    | comma hc h k =>
      have hcomma := h.dropComments
      rw [dropComments_cons (by decide) (by decide)] at hcomma
      exact .comma hc hcomma (hbracket _ ▸ k.dropComments)

theorem dropCommas_string (h : Chars raw) (rest : List Char) :
    dropCommas false ('\x22' :: (raw ++ '\x22' :: rest)) =
      '\x22' :: (raw ++ '\x22' :: dropCommas false rest) := by
  have hplain {c : Char} (hs : c ≠ '\\') (cs : List Char) :
      dropCommas true (c :: cs) = c :: dropCommas (c != '\x22') cs := by
    rw [dropCommas]
    exact fun _ _ he => absurd he hs
  rw [dropCommas, if_neg (by simp), decide_eq_true rfl]
  refine congrArg _ (Chars.copied (fun c cs => ?_) (fun c cs hq hs => ?_) (fun cs => ?_) h rest)
  · rw [dropCommas]
  · rw [hplain hs, bne_iff_ne.2 hq]
  · exact hplain (by decide) cs

theorem keepsTokens_dropCommas : KeepsTokens (dropCommas false) where
  plain c cs h := by
    simp only [isPlain, Bool.and_eq_true, bne_iff_ne] at h
    rw [dropCommas, if_neg (by simp [h.1.1]), decide_eq_false h.2]
  string _ _ h := dropCommas_string h _
  comma cs h := by
    rw [dropCommas, if_neg (by simp [h])]
    rfl

theorem Gap.dropCommas (h : Gap false cs rest) :
    Gap false (dropCommas false cs) (dropCommas false rest) := by
  induction h using Gap.blanks with
  | done => exact .done
  | space hc _ ih =>
    rw [keepsTokens_dropCommas.plain _ _ (isPlain_of_isSpace hc)]
    exact .space hc ih

theorem Gap.closesNext_eq (h : Gap false cs rest) : closesNext cs = closesNext rest := by
  induction h using Gap.blanks with
  | done => rfl
  | space hc _ ih => rw [closesNext_cons_of_isSpace hc, ih]

theorem closesNext_bracket (h : c ∈ [']', '}']) (cs : List Char) : closesNext (c :: cs) = true := by
  simp only [List.mem_cons, List.not_mem_nil, or_false] at h
  rcases h with rfl | rfl <;> rfl

theorem dropCommas_comma (h : closesNext cs = true) :
    dropCommas false (',' :: cs) = dropCommas false cs := by
  rw [dropCommas, if_pos (by simp [h])]

theorem carries_dropCommas : Carries ⟨false, commas⟩ .strict (dropCommas false) where
  toKeepsTokens := keepsTokens_dropCommas
  gap h := h.dropCommas
  closing hb h := by
    have hbracket (cs : List Char) := keepsTokens_dropCommas.plain _ cs (isPlain_of_bracket hb)
    cases h with
    | bare h => exact .bare (hbracket _ ▸ h.dropCommas)
    | comma hc h k =>
      have hcomma := h.dropCommas
      rw [dropCommas_comma (k.closesNext_eq.trans (closesNext_bracket hb _))] at hcomma
      exact .bare (hcomma.trans (hbracket _ ▸ k.dropCommas))

theorem document_strip (h : Document .relaxed t cs) : Document .strict t (strip cs) :=
  carries_dropCommas.document rfl (carries_dropComments.document rfl h)

theorem strip_eq_self (h : Document .strict t cs) : strip cs = cs := by
  rw [strip, keepsTokens_dropComments.document rfl h, keepsTokens_dropCommas.document rfl h]

/-- A document with comments and trailing commas is brought into strict form with all its numbers
and strings as they were written, and so is read as the document that it stands for. A document in
strict form stays as it is; and these are just the texts that the strict reader takes. -/
theorem strip_keeps_documents :
    (∀ t cs, Document .relaxed t cs → Document .strict t (strip cs) ∧
      read? (strip cs) = some t.value) ∧
    (∀ t cs, Document .strict t cs → strip cs = cs) ∧
    ∀ cs v, read? cs = some v ↔ ∃ t, Document .strict t cs ∧ t.value = v :=
  ⟨fun _ _ h => ⟨document_strip h, (document_strip h).read⟩, fun _ _ => strip_eq_self,
    fun _ _ => read?_eq_some_iff⟩

/-- A quote in a comment, a bracket in another, and slashes, a comma and a bracket in a string in
front of a trailing comma. -/
def commented : List Char :=
  ['[', '/', '/', ' ', '\x22', '\n', '1', ',', '/', '*', ']', '*', '/',
    '\x22', '/', '/', ',', ']', '\x22', ',', ' ', ']']

theorem document_commented :
    Document .relaxed (.array [.number ['1'], .string ['/', '/', ',', ']']]) commented := by
  have hline (rest : List Char) : Gap true ('/' :: '/' :: ' ' :: '\x22' :: '\n' :: rest) rest :=
    @Gap.line true [' ', '\x22'] rest rest rfl (by decide) .done
  have hstarred (rest : List Char) : Gap true ('/' :: '*' :: ']' :: '*' :: '/' :: rest) rest :=
    @Gap.starred true [']'] rest rest rfl (by decide) .done
  have hone (rest : List Char) : Written .relaxed (.number ['1']) ('1' :: rest) rest :=
    .number (.unsigned (.nat 1))
  have hchars : Chars ['/', '/', ',', ']'] := by
    repeat refine .plain (by decide) (by decide) (by decide) ?_
    exact .nil
  have hstring (rest : List Char) : Written .relaxed (.string ['/', '/', ',', ']'])
      ('\x22' :: '/' :: '/' :: ',' :: ']' :: '\x22' :: rest) rest := .string hchars
  have hclose : Closing .relaxed ']' [',', ' ', ']'] [] := .comma rfl .done (.space rfl .done)
  exact ⟨commented, [], .done,
    .array (.more (hline _) (hone _) .done (.last (hstarred _) (hstring _) hclose)), .done⟩

theorem strip_commented :
    strip commented = ['[', '\n', '1', ',', '\x22', '/', '/', ',', ']', '\x22', ' ', ']'] ∧
      read? (strip commented) =
        some (.array [.number ['1'], .string (some (String.ofList ['/', '/', ',', ']']))]) :=
  ⟨by decide, (strip_keeps_documents.1 _ _ document_commented).2⟩

end QualityGate.Json
