import QualityGate.Proofs.Json.RoundTrip
import QualityGate.Proofs.Json.Tokens

/-!
The reader and the grammar. A text is read as a document just where the grammar has it as a strict
document, and as the same one.
-/
namespace QualityGate.Json

variable {t : Literal} {v : Json} {a b c d : Char} {raw cs ds front back rest : List Char}

theorem exists_unit? (h : ∀ x ∈ [a, b, c, d], (hexDigit? x).isSome = true) :
    ∃ n, unit? a b c d = some n := by
  simp only [List.forall_mem_cons] at h
  obtain ⟨ha, hb, hc, hd, -⟩ := h
  obtain ⟨x, hx⟩ := Option.isSome_iff_exists.1 ha
  obtain ⟨y, hy⟩ := Option.isSome_iff_exists.1 hb
  obtain ⟨z, hz⟩ := Option.isSome_iff_exists.1 hc
  obtain ⟨w, hw⟩ := Option.isSome_iff_exists.1 hd
  exact ⟨_, by simp [unit?, hx, hy, hz, hw]; rfl⟩

theorem readString_unescape {e : Char} (hc : c ≠ 'u') (he : unescape? c = some e) (cs : List Char) :
    readString ('\\' :: c :: cs) = .cons e (readString cs) := by
  simp [readString, hc, he]

theorem exists_unescape? (h : c ∈ ['\x22', '\\', '/', 'b', 'f', 'n', 'r', 't']) :
    c ≠ 'u' ∧ ∃ e, unescape? c = some e := by
  simp only [List.mem_cons, List.not_mem_nil, or_false] at h
  rcases h with rfl | rfl | rfl | rfl | rfl | rfl | rfl | rfl <;> exact ⟨by decide, _, rfl⟩

/-- An escape by number, unless it is the first half of a character. -/
theorem readString_unit {n : ℕ} (h : unit? a b c d = some n) (hhigh : isHigh n = false)
    (cs : List Char) :
    readString ('\\' :: 'u' :: a :: b :: c :: d :: cs) =
      if isLow n then .spoil (readString cs) else .cons (Char.ofNat n) (readString cs) := by
  rw [readString, h]
  simp [hhigh]

/-- The first half of a character with no second half behind it. -/
theorem readString_half {n : ℕ} (h : unit? a b c d = some n) (hhigh : isHigh n = true)
    {cs : List Char} (hcs : ∀ e f g i tail, cs ≠ '\\' :: 'u' :: e :: f :: g :: i :: tail) :
    readString ('\\' :: 'u' :: a :: b :: c :: d :: cs) = .spoil (readString cs) := by
  rw [readString, h]
  simp only [hhigh, if_true]

/-- The first half of a character, and an escape by number that may be the second half. -/
theorem readString_halves {e f g i : Char} {n m : ℕ} (h : unit? a b c d = some n)
    (hhigh : isHigh n = true) (k : unit? e f g i = some m) (cs : List Char) :
    readString ('\\' :: 'u' :: a :: b :: c :: d :: '\\' :: 'u' :: e :: f :: g :: i :: cs) =
      if isLow m then .cons (Char.ofNat (0x10000 + (n - 0xd800) * 0x400 + (m - 0xdc00)))
        (readString cs)
      else .spoil (readString ('\\' :: 'u' :: e :: f :: g :: i :: cs)) := by
  rw [readString, h]
  simp only [hhigh, if_true, k]

/-- The characters of a string are read up to its closing quote, whatever stands behind it. -/
theorem readString_chars {raw : List Char} (h : Chars raw) :
    ∃ value, ∀ rest, readString (raw ++ '\x22' :: rest) = some (value, rest) := by
  cases h with
  | nil => exact ⟨some [], fun rest => rfl⟩
  | @plain c _ hquote hslash hcontrol h =>
    obtain ⟨value, ih⟩ := readString_chars h
    refine ⟨value.map (c :: ·), fun rest => ?_⟩
    rw [List.cons_append, readString_plain hquote hslash hcontrol, ih]
    rfl
  | escape hc h =>
    obtain ⟨value, ih⟩ := readString_chars h
    obtain ⟨hu, e, he⟩ := exists_unescape? hc
    refine ⟨value.map (e :: ·), fun rest => ?_⟩
    rw [List.cons_append, List.cons_append, readString_unescape hu he, ih]
    rfl
  | @unicode a b c d cs hex h =>
    obtain ⟨n, hn⟩ := exists_unit? hex
    obtain ⟨value, ih⟩ := readString_chars h
    cases hhigh : isHigh n with
    | false =>
      refine ⟨if isLow n then none else value.map (Char.ofNat n :: ·), fun rest => ?_⟩
      simp only [List.cons_append, readString_unit hn hhigh, ih]
      split_ifs <;> rfl
    | true =>
      -- What follows may be the second half, so it is read in two ways.
      have hlone (hcs : ∀ rest e f g i tail, cs ++ '\x22' :: rest ≠
        '\\' :: 'u' :: e :: f :: g :: i :: tail) :
          ∃ value, ∀ rest,
            readString ('\\' :: 'u' :: a :: b :: c :: d :: cs ++ '\x22' :: rest) =
              some (value, rest) := by
        refine ⟨none, fun rest => ?_⟩
        simp only [List.cons_append, readString_half hn hhigh (hcs rest), ih]
        rfl
      cases h with
      | nil => exact hlone (by simp)
      | plain _ hslash => exact hlone (by simp [hslash])
      | escape hc => exact hlone (by simp [(exists_unescape? hc).1])
      | @unicode e f g i tail hex' h =>
        obtain ⟨m, hm⟩ := exists_unit? hex'
        obtain ⟨value', ih'⟩ := readString_chars h
        let whole := Char.ofNat (0x10000 + (n - 0xd800) * 0x400 + (m - 0xdc00))
        refine ⟨if isLow m then value'.map (whole :: ·) else none, fun rest => ?_⟩
        have ih := ih rest
        simp only [List.cons_append] at ih ⊢
        rw [readString_halves hn hhigh hm, ih', ih]
        split_ifs <;> rfl

theorem exists_decode (h : Chars raw) (rest : List Char) :
    ∃ value, readString (raw ++ '\x22' :: rest) = some (value, rest) ∧
      decode raw = value.map String.ofList := by
  obtain ⟨value, hread⟩ := readString_chars h
  refine ⟨value, hread rest, ?_⟩
  rw [decode, hread []]
  rfl

theorem isHex_of_unit? {n : ℕ} (h : unit? a b c d = some n) :
    ∀ x ∈ [a, b, c, d], (hexDigit? x).isSome = true := by
  simp only [unit?, Option.bind_eq_bind] at h
  obtain ⟨x, hx, h⟩ := Option.bind_eq_some_iff.1 h
  obtain ⟨y, hy, h⟩ := Option.bind_eq_some_iff.1 h
  obtain ⟨z, hz, h⟩ := Option.bind_eq_some_iff.1 h
  obtain ⟨w, hw, -⟩ := Option.bind_eq_some_iff.1 h
  simp [hx, hy, hz, hw]

theorem mem_of_unescape? {e : Char} (h : unescape? c = some e) :
    c ∈ ['\x22', '\\', '/', 'b', 'f', 'n', 'r', 't'] := by
  unfold unescape? at h
  split at h <;> simp_all

theorem Held.exists_of_cons {held : Held} {value : Option (List Char)}
    (h : Held.cons c held = some (value, rest)) : ∃ value', held = some (value', rest) := by
  obtain ⟨⟨value', rest'⟩, hheld, he⟩ := Option.map_eq_some_iff.1 h
  exact ⟨value', by rw [hheld, (Prod.mk.inj he).2]⟩

theorem Held.exists_of_spoil {held : Held} {value : Option (List Char)}
    (h : Held.spoil held = some (value, rest)) : ∃ value', held = some (value', rest) := by
  obtain ⟨⟨value', rest'⟩, hheld, he⟩ := Option.map_eq_some_iff.1 h
  exact ⟨value', by rw [hheld, (Prod.mk.inj he).2]⟩

/-- What is read as a string consists of characters and escapes, up to a quote. -/
theorem readString_sound {value : Option (List Char)} (h : readString cs = some (value, rest)) :
    ∃ raw, Chars raw ∧ cs = raw ++ '\x22' :: rest := by
  fun_induction readString cs generalizing value with
  | case1 | case3 | case4 | case11 | case12 => simp at h
  | case2 cs =>
    obtain ⟨-, rfl⟩ := Prod.mk.inj (Option.some.inj h)
    exact ⟨[], .nil, rfl⟩
  | case5 a b c d n hn _ e f g i tail m hm _ ih =>
    obtain ⟨_, hread⟩ := Held.exists_of_cons h
    obtain ⟨raw, hraw, rfl⟩ := ih hread
    exact ⟨_, .unicode (isHex_of_unit? hn) (.unicode (isHex_of_unit? hm) hraw), rfl⟩
  | case6 a b c d n hn _ e f g i tail m hm _ ih =>
    obtain ⟨_, hread⟩ := Held.exists_of_spoil h
    obtain ⟨raw, hraw, he⟩ := ih hread
    exact ⟨_, .unicode (isHex_of_unit? hn) hraw, by rw [he]; rfl⟩
  | case7 a b c d n hn _ cs _ ih =>
    obtain ⟨_, hread⟩ := Held.exists_of_spoil h
    obtain ⟨raw, hraw, rfl⟩ := ih hread
    exact ⟨_, .unicode (isHex_of_unit? hn) hraw, rfl⟩
  | case8 a b c d cs n hn _ _ ih =>
    obtain ⟨_, hread⟩ := Held.exists_of_spoil h
    obtain ⟨raw, hraw, rfl⟩ := ih hread
    exact ⟨_, .unicode (isHex_of_unit? hn) hraw, rfl⟩
  | case9 a b c d cs n hn _ _ ih =>
    obtain ⟨_, hread⟩ := Held.exists_of_cons h
    obtain ⟨raw, hraw, rfl⟩ := ih hread
    exact ⟨_, .unicode (isHex_of_unit? hn) hraw, rfl⟩
  | case10 c cs _ e he ih =>
    obtain ⟨_, hread⟩ := Held.exists_of_cons h
    obtain ⟨raw, hraw, rfl⟩ := ih hread
    exact ⟨_, .escape (mem_of_unescape? he) hraw, rfl⟩
  | case13 c cs hquote _ hslash hcontrol ih =>
    obtain ⟨_, hread⟩ := Held.exists_of_cons h
    have hc : c ≠ '\\' := by
      rintro rfl
      cases cs with
      | nil => simp [readString] at hread
      | cons d cs => exact hslash d cs rfl rfl
    obtain ⟨raw, hraw, rfl⟩ := ih hread
    exact ⟨_, .plain hquote hc hcontrol hraw, rfl⟩

theorem exists_raw {value : Option (List Char)} (h : readString cs = some (value, rest)) :
    ∃ raw, Chars raw ∧ cs = raw ++ '\x22' :: rest ∧ decode raw = value.map String.ofList := by
  obtain ⟨raw, hraw, rfl⟩ := readString_sound h
  obtain ⟨value', hread, hdecode⟩ := exists_decode hraw rest
  obtain rfl : value = value' := (Prod.mk.inj (Option.some.inj (h.symm.trans hread))).1
  exact ⟨raw, hraw, rfl, hdecode⟩

theorem gap_skipSpace {comments : Bool} (cs : List Char) : Gap comments cs (skipSpace cs) := by
  induction cs with
  | nil => exact .done
  | cons c cs ih =>
    cases hc : isSpace c with
    | true =>
      rw [skipSpace, List.dropWhile_cons_of_pos hc]
      exact .space hc ih
    | false =>
      rw [skipSpace_cons hc]
      exact .done

theorem gap_of_skipSpace {comments : Bool} (h : skipSpace cs = rest) : Gap comments cs rest :=
  h ▸ gap_skipSpace cs

theorem Gap.skipSpace_eq (h : Gap false cs rest) : skipSpace cs = skipSpace rest := by
  induction h using Gap.blanks with
  | done => rfl
  | space hc _ ih => rw [skipSpace, List.dropWhile_cons_of_pos hc, ← ih, skipSpace]

/-- A value in front of blanks ends there. -/
theorem Gap.ends (h : Gap false cs rest) (hr : Ends rest) : Ends cs := by
  induction h using Gap.blanks with
  | done => exact hr
  | space hc =>
    intro c he
    obtain rfl := Option.some.inj he
    simp [endsValue, hc]

theorem Closing.ends {bracket : Char} (hb : endsValue bracket = true)
    (h : Closing .strict bracket cs rest) :
    Ends cs :=
  h.gap.ends fun _ hc => Option.some.inj hc ▸ hb

theorem Closing.skipSpace_eq {bracket : Char} (hb : isSpace bracket = false)
    (h : Closing .strict bracket cs rest) : skipSpace cs = bracket :: rest :=
  h.gap.skipSpace_eq.trans (skipSpace_cons hb rest)

theorem Opens.not_space (h : Opens c) : isSpace c = false := by
  cases hc : isSpace c with
  | false => rfl
  | true => exact absurd (isBlank_of_isSpace hc) (by simp [h.not_blank])

theorem Written.skipSpace_eq {layout : Layout} (h : Written layout t cs rest) :
    skipSpace cs = cs := by
  obtain ⟨c, tail, rfl, hc⟩ := h.exists_opens
  exact skipSpace_cons hc.not_space tail

/-- The reader sees nothing of the blanks in front of a value. -/
theorem readValue_congr (h : skipSpace cs = skipSpace ds) (fuel : ℕ) :
    readValue fuel cs = readValue fuel ds := by
  cases fuel with
  | zero => rfl
  | succ fuel => rw [readValue, readValue, h]

theorem readItems_congr (h : skipSpace cs = skipSpace ds) (fuel : ℕ) :
    readItems fuel cs = readItems fuel ds := by
  cases fuel with
  | zero => rfl
  | succ fuel => rw [readItems, readItems, readValue_congr h]

theorem readEntries_congr (h : skipSpace cs = skipSpace ds) (fuel : ℕ) :
    readEntries fuel cs = readEntries fuel ds := by
  cases fuel with
  | zero => rfl
  | succ fuel => rw [readEntries, readEntries, h]

theorem keepsTokens_id : KeepsTokens id := ⟨fun _ _ _ => rfl, fun _ _ _ => rfl, fun _ _ => rfl⟩

theorem Gap.length_le (h : Gap false cs rest) : rest.length ≤ cs.length :=
  (keepsTokens_id.gap h).length_le

theorem Closing.length_lt {bracket : Char} (h : Closing .strict bracket cs rest) :
    rest.length < cs.length :=
  h.gap.length_le

theorem Written.length_lt (h : Written .strict t cs rest) : rest.length < cs.length := by
  cases h with
  | number h =>
    obtain ⟨c, tail, rfl, -⟩ := h.exists_cons
    simp only [List.length_cons, List.length_append]
    omega
  | emptyArray h => exact Nat.lt_succ_of_lt h.length_lt
  | array h => exact Nat.lt_succ_of_le (keepsTokens_id.items h).length_le
  | emptyObject h => exact Nat.lt_succ_of_lt h.length_lt
  | object h => exact Nat.lt_succ_of_le (keepsTokens_id.entries h).length_le
  | _ =>
    simp only [List.length_cons, List.length_append]
    omega

theorem WrittenItems.exists_opens {ts : List Literal} (h : WrittenItems .strict ts cs rest) :
    ∃ c tail, skipSpace cs = c :: tail ∧ Opens c := by
  obtain ⟨front, back, t, hgap, hw⟩ :
      ∃ front back t, Gap false cs front ∧ Written .strict t front back := by
    cases h with
    | last hgap h => exact ⟨_, _, _, hgap, h⟩
    | more hgap h => exact ⟨_, _, _, hgap, h⟩
  obtain ⟨c, tail, rfl, hc⟩ := hw.exists_opens
  exact ⟨c, tail, hgap.skipSpace_eq.trans (skipSpace_cons hc.not_space tail), hc⟩

theorem WrittenEntry.exists_quote {e : List Char × Literal} (h : WrittenEntry .strict e cs rest) :
    ∃ tail, skipSpace cs = '\x22' :: tail := by
  cases h with
  | mk hgap => exact ⟨_, hgap.skipSpace_eq.trans (skipSpace_cons rfl _)⟩

theorem WrittenEntries.exists_quote {es : List (List Char × Literal)}
    (h : WrittenEntries .strict es cs rest) : ∃ tail, skipSpace cs = '\x22' :: tail := by
  cases h with
  | last h => exact h.exists_quote
  | more h => exact h.exists_quote

/-- The items of an array are read from behind the blanks that follow the bracket. -/
theorem readValue_items {fuel : ℕ} {vs : List Json} (h : readItems fuel cs = some (vs, rest))
    (hopens : ∃ c tail, skipSpace cs = c :: tail ∧ Opens c) :
    readValue (fuel + 1) ('[' :: cs) = some (.array vs, rest) := by
  obtain ⟨c, tail, hskip, hc⟩ := hopens
  have hcongr : readItems fuel (c :: tail) = readItems fuel cs :=
    readItems_congr ((skipSpace_cons hc.not_space tail).trans hskip.symm) fuel
  rw [readValue, skipSpace_cons rfl]
  simp only [hskip]
  split
  · next he => exact absurd (List.cons.inj he).1 hc.not_closing.1
  · rw [hcongr, h]
    rfl

theorem readValue_entries {fuel : ℕ} {es : List (Option String × Json)}
    (h : readEntries fuel cs = some (es, rest)) (hquote : ∃ tail, skipSpace cs = '\x22' :: tail) :
    readValue (fuel + 1) ('{' :: cs) = some (.object es, rest) := by
  obtain ⟨tail, hskip⟩ := hquote
  have hcongr : readEntries fuel ('\x22' :: tail) = readEntries fuel cs :=
    readEntries_congr ((skipSpace_cons rfl tail).trans hskip.symm) fuel
  rw [readValue, skipSpace_cons rfl]
  simp only [hskip]
  split
  · next he => exact absurd (List.cons.inj he).1 (by decide)
  · rw [hcongr, h]
    rfl

mutual
/-- A value of the grammar is read as what it stands for, with more steps than it has characters. -/
theorem Written.read {t : Literal} {cs rest : List Char} (h : Written .strict t cs rest)
    (hr : Ends rest) {fuel : ℕ} (hfuel : cs.length ≤ fuel + rest.length) :
    readValue fuel cs = some (t.value, rest) := by
  obtain ⟨fuel, rfl⟩ := Nat.exists_eq_add_one.2 (show 0 < fuel by have := h.length_lt; omega)
  cases h with
  | null => rfl
  | wordTrue => rfl
  | wordFalse => rfl
  | number h => exact readValue_number h hr fuel
  | string h =>
    obtain ⟨value, hread, hdecode⟩ := exists_decode h rest
    rw [readValue, skipSpace_cons rfl]
    simp only [hread, Option.map_some, Literal.value, hdecode]
  | emptyArray h =>
    rw [readValue, skipSpace_cons rfl]
    simp only [h.skipSpace_eq rfl]
    rfl
  | array h =>
    rw [List.length_cons] at hfuel
    exact readValue_items (h.read (by omega)) h.exists_opens
  | emptyObject h =>
    rw [readValue, skipSpace_cons rfl]
    simp only [h.skipSpace_eq rfl]
    rfl
  | object h =>
    rw [List.length_cons] at hfuel
    exact readValue_entries (h.read (by omega)) h.exists_quote

theorem WrittenItems.read {ts : List Literal} {cs rest : List Char}
    (h : WrittenItems .strict ts cs rest) {fuel : ℕ} (hfuel : cs.length ≤ fuel + rest.length) :
    readItems fuel cs = some (values ts, rest) := by
  cases h with
  | last hgap h hclose =>
    have hcs := hgap.length_le
    have hback := hclose.length_lt
    have hfront := h.length_lt
    obtain ⟨fuel, rfl⟩ := Nat.exists_eq_add_one.2 (show 0 < fuel by omega)
    rw [readItems, readValue_congr hgap.skipSpace_eq, h.read (hclose.ends rfl) (by omega)]
    simp only [Option.bind_eq_bind, Option.bind_some, hclose.skipSpace_eq rfl]
    rfl
  | @more _ _ _ _ back _ _ hgap h hcomma k =>
    have hcs := hgap.length_le
    have hback := hcomma.length_le
    have hfront := h.length_lt
    have hnext := (keepsTokens_id.items k).length_le
    rw [List.length_cons] at hback
    obtain ⟨fuel, rfl⟩ := Nat.exists_eq_add_one.2 (show 0 < fuel by omega)
    have hends : Ends back := hcomma.ends (by simp [Ends, endsValue])
    rw [readItems, readValue_congr hgap.skipSpace_eq, h.read hends (by omega)]
    simp only [Option.bind_eq_bind, Option.bind_some, hcomma.skipSpace_eq,
      skipSpace_cons (c := ',') rfl, k.read (show _ ≤ fuel + _ by omega)]
    rfl

theorem WrittenEntry.read {e : List Char × Literal} {cs rest : List Char}
    (h : WrittenEntry .strict e cs rest) (hr : Ends rest) {fuel : ℕ}
    (hfuel : cs.length ≤ fuel + 1 + rest.length) :
    readEntries (fuel + 1) cs = Reads.readOn fuel (decode e.1, e.2.value) rest := by
  cases h with
  | @mk key t _ front mid back _ hgap hkey hcolon hvalue h =>
    obtain ⟨value, hread, hdecode⟩ := exists_decode hkey front
    have hcs := hgap.length_le
    have hfront := hcolon.length_le
    have hmid := hvalue.length_le
    simp only [List.length_cons, List.length_append] at hcs hfront
    have hvalue := (readValue_congr hvalue.skipSpace_eq fuel).trans (h.read hr (by omega))
    rw [readEntries, hgap.skipSpace_eq, skipSpace_cons rfl]
    simp only [Option.bind_eq_bind, hread, Option.bind_some, hcolon.skipSpace_eq,
      skipSpace_cons (c := ':') rfl, hvalue, hdecode]
    rfl

theorem WrittenEntries.read {es : List (List Char × Literal)} {cs rest : List Char}
    (h : WrittenEntries .strict es cs rest) {fuel : ℕ} (hfuel : cs.length ≤ fuel + rest.length) :
    readEntries fuel cs = some (valuesOfEntries es, rest) := by
  cases h with
  | last h hclose =>
    have hcs := (keepsTokens_id.entry h).length_le
    have hback := hclose.length_lt
    obtain ⟨fuel, rfl⟩ := Nat.exists_eq_add_one.2 (show 0 < fuel by omega)
    rw [h.read (hclose.ends rfl) (by omega)]
    simp only [Reads.readOn, hclose.skipSpace_eq rfl]
    rfl
  | more h hcomma k =>
    have hcs := (keepsTokens_id.entry h).length_le
    have hback := hcomma.length_le
    have hnext := (keepsTokens_id.entries k).length_le
    rw [List.length_cons] at hback
    obtain ⟨fuel, rfl⟩ := Nat.exists_eq_add_one.2 (show 0 < fuel by omega)
    rw [h.read (hcomma.ends (by simp [Ends, endsValue])) (by omega)]
    have hentries := k.read (show _ ≤ fuel + _ by omega)
    simp only [Reads.readOn, hcomma.skipSpace_eq, skipSpace_cons (c := ',') rfl, hentries]
    rfl
end

theorem Document.read (h : Document .strict t cs) : read? cs = some t.value := by
  obtain ⟨front, back, hfront, hwritten, hback⟩ := h
  have hends : Ends back := hback.ends (by simp [Ends])
  have hcs := hfront.length_le
  have hread : readValue (2 * cs.length + 2) front = some (t.value, back) :=
    hwritten.read hends (by omega)
  rw [read?, readValue_congr hfront.skipSpace_eq, hread]
  simp only [hback.skipSpace_eq]
  rfl

/-- What the reader takes for a value, for items and for entries, with so many steps. -/
structure Sound (fuel : ℕ) : Prop where
  value : ∀ {cs rest v}, readValue fuel cs = some (v, rest) →
    ∃ t front, Gap false cs front ∧ Written .strict t front rest ∧ t.value = v
  items : ∀ {cs rest vs}, readItems fuel cs = some (vs, rest) →
    ∃ ts, WrittenItems .strict ts cs rest ∧ values ts = vs
  entries : ∀ {cs rest es}, readEntries fuel cs = some (es, rest) →
    ∃ ts, WrittenEntries .strict ts cs rest ∧ valuesOfEntries ts = es

theorem Sound.zero : Sound 0 := ⟨by simp [readValue], by simp [readItems], by simp [readEntries]⟩

theorem Sound.readItems_succ {fuel : ℕ} (h : Sound fuel) {vs : List Json}
    (hread : readItems (fuel + 1) cs = some (vs, rest)) :
    ∃ ts, WrittenItems .strict ts cs rest ∧ values ts = vs := by
  rw [readItems, Option.bind_eq_bind] at hread
  obtain ⟨⟨v, back⟩, hvalue, hread⟩ := Option.bind_eq_some_iff.1 hread
  obtain ⟨t, front, hgap, hwritten, rfl⟩ := h.value hvalue
  simp only at hread
  split at hread
  · next next hskip =>
    obtain ⟨⟨us, rest⟩, hitems, he⟩ := Option.map_eq_some_iff.1 hread
    obtain ⟨rfl, rfl⟩ := Prod.mk.inj he
    obtain ⟨ts, hts, rfl⟩ := h.items hitems
    exact ⟨t :: ts, .more hgap hwritten (gap_of_skipSpace hskip) hts, rfl⟩
  · next hskip =>
    obtain ⟨rfl, rfl⟩ := Prod.mk.inj (Option.some.inj hread)
    exact ⟨[t], .last hgap hwritten (.bare (gap_of_skipSpace hskip)), rfl⟩
  · simp at hread

theorem Sound.readEntries_succ {fuel : ℕ} (h : Sound fuel) {es : List (Option String × Json)}
    (hread : readEntries (fuel + 1) cs = some (es, rest)) :
    ∃ ts, WrittenEntries .strict ts cs rest ∧ valuesOfEntries ts = es := by
  rw [readEntries] at hread
  split at hread
  · next front hquote =>
    rw [Option.bind_eq_bind] at hread
    obtain ⟨⟨key, mid⟩, hkey, hvalue⟩ := Option.bind_eq_some_iff.1 hread
    obtain ⟨raw, hraw, rfl, hdecode⟩ := exists_raw hkey
    simp only at hvalue
    split at hvalue
    · next mid hcolon =>
      obtain ⟨⟨v, back⟩, hvalue, hmore⟩ := Option.bind_eq_some_iff.1 hvalue
      obtain ⟨t, front, hgap, hwritten, rfl⟩ := h.value hvalue
      have hentry : WrittenEntry .strict (raw, t) cs back :=
        .mk (gap_of_skipSpace hquote) hraw (gap_of_skipSpace hcolon) hgap hwritten
      simp only at hmore
      split at hmore
      · next next hskip =>
        obtain ⟨⟨us, rest⟩, hentries, he⟩ := Option.map_eq_some_iff.1 hmore
        obtain ⟨rfl, rfl⟩ := Prod.mk.inj he
        obtain ⟨ts, hts, rfl⟩ := h.entries hentries
        exact ⟨(raw, t) :: ts, .more hentry (gap_of_skipSpace hskip) hts,
          by rw [valuesOfEntries, hdecode]⟩
      · next hskip =>
        obtain ⟨rfl, rfl⟩ := Prod.mk.inj (Option.some.inj hmore)
        exact ⟨[(raw, t)], .last hentry (.bare (gap_of_skipSpace hskip)),
          by simp [valuesOfEntries, hdecode]⟩
      · simp at hmore
    · simp at hvalue
  · simp at hread

theorem Sound.readValue_succ {fuel : ℕ} (h : Sound fuel) {v : Json}
    (hread : readValue (fuel + 1) cs = some (v, rest)) :
    ∃ t front, Gap false cs front ∧ Written .strict t front rest ∧ t.value = v := by
  suffices hvalue : ∃ t, Written .strict t (skipSpace cs) rest ∧ t.value = v by
    obtain ⟨t, ht⟩ := hvalue
    exact ⟨t, skipSpace cs, gap_skipSpace cs, ht⟩
  rw [readValue] at hread
  split at hread
  · next hskip =>
    obtain ⟨rfl, rfl⟩ := Prod.mk.inj (Option.some.inj hread)
    exact ⟨.null, hskip ▸ .null, rfl⟩
  · next hskip =>
    obtain ⟨rfl, rfl⟩ := Prod.mk.inj (Option.some.inj hread)
    exact ⟨.boolean true, hskip ▸ .wordTrue, rfl⟩
  · next hskip =>
    obtain ⟨rfl, rfl⟩ := Prod.mk.inj (Option.some.inj hread)
    exact ⟨.boolean false, hskip ▸ .wordFalse, rfl⟩
  · next hskip =>
    obtain ⟨⟨value, rest⟩, hstring, he⟩ := Option.map_eq_some_iff.1 hread
    obtain ⟨rfl, rfl⟩ := Prod.mk.inj he
    obtain ⟨raw, hraw, rfl, hdecode⟩ := exists_raw hstring
    exact ⟨.string raw, hskip ▸ .string hraw, by rw [Literal.value, hdecode]⟩
  · next inner hskip =>
    rw [hskip]
    split at hread
    · next hclose =>
      obtain ⟨rfl, rfl⟩ := Prod.mk.inj (Option.some.inj hread)
      exact ⟨.array [], .emptyArray (.bare (gap_of_skipSpace hclose)), rfl⟩
    · obtain ⟨⟨vs, rest⟩, hitems, he⟩ := Option.map_eq_some_iff.1 hread
      obtain ⟨rfl, rfl⟩ := Prod.mk.inj he
      obtain ⟨ts, hts, rfl⟩ := h.items hitems
      have hgap : Gap Layout.strict.comments inner (skipSpace inner) := gap_skipSpace inner
      exact ⟨.array ts, .array (hgap.items hts), rfl⟩
  · next inner hskip =>
    rw [hskip]
    split at hread
    · next hclose =>
      obtain ⟨rfl, rfl⟩ := Prod.mk.inj (Option.some.inj hread)
      exact ⟨.object [], .emptyObject (.bare (gap_of_skipSpace hclose)), rfl⟩
    · obtain ⟨⟨es, rest⟩, hentries, he⟩ := Option.map_eq_some_iff.1 hread
      obtain ⟨rfl, rfl⟩ := Prod.mk.inj he
      obtain ⟨ts, hts, rfl⟩ := h.entries hentries
      have hgap : Gap Layout.strict.comments inner (skipSpace inner) := gap_skipSpace inner
      exact ⟨.object ts, .object (hgap.entries hts), rfl⟩
  · obtain ⟨⟨ds, rest⟩, hnumber, he⟩ := Option.map_eq_some_iff.1 hread
    obtain ⟨rfl, rfl⟩ := Prod.mk.inj he
    obtain ⟨hds, hcs⟩ := readNumber_sound hnumber
    exact ⟨.number ds, hcs ▸ .number hds, rfl⟩

theorem sound (fuel : ℕ) : Sound fuel := by
  induction fuel with
  | zero => exact .zero
  | succ fuel ih => exact ⟨ih.readValue_succ, ih.readItems_succ, ih.readEntries_succ⟩

/-- A text is read as a document just where the grammar has it as a strict form of the document. -/
theorem read?_eq_some_iff : read? cs = some v ↔ ∃ t, Document .strict t cs ∧ t.value = v := by
  constructor
  · intro h
    unfold read? at h
    split at h
    · next value back hvalue =>
      split_ifs at h with hback
      obtain rfl := Option.some.inj h
      obtain ⟨t, front, hgap, hwritten, rfl⟩ := (sound _).value hvalue
      exact ⟨t, ⟨front, back, hgap, hwritten, gap_of_skipSpace (List.isEmpty_iff.1 hback)⟩, rfl⟩
    · simp at h
  · rintro ⟨t, ht, rfl⟩
    exact ht.read

end QualityGate.Json
