import QualityGate.Proofs.Json.Number
import Mathlib.Data.List.TakeWhile

/-!
Documents read back. A text that was written for a document is read as this document, whatever
strings it holds, if its numbers have the form of numbers and no string lacks its text.
-/
namespace QualityGate.Json

theorem unit?_hexLetter : ∀ n < 0x20,
    unit? '0' '0' (hexLetter (n / 16)) (hexLetter (n % 16)) = some n := by
  decide

theorem readString_control {c : Char} (h : c.toNat < 0x20) (cs : List Char) :
    readString ('\\' :: 'u' :: '0' :: '0' :: hexLetter (c.toNat / 16) ::
      hexLetter (c.toNat % 16) :: cs) = .cons c (readString cs) := by
  have hhigh : isHigh c.toNat = false := by
    simp only [isHigh, Bool.and_eq_false_iff, decide_eq_false_iff_not]
    omega
  have hlow : isLow c.toNat = false := by
    simp only [isLow, Bool.and_eq_false_iff, decide_eq_false_iff_not]
    omega
  rw [readString]
  simp only [unit?_hexLetter c.toNat h, hhigh, hlow, Bool.false_eq_true, if_false,
    Char.ofNat_toNat]

theorem readString_plain {c : Char} (hquote : c ≠ '\x22') (hslash : c ≠ '\\')
    (h : ¬ c.toNat < 0x20) (cs : List Char) : readString (c :: cs) = .cons c (readString cs) := by
  rw [readString, if_neg h]
  · exact hquote
  · exact fun _ _ _ _ _ hc => absurd hc hslash
  · exact fun _ _ hc => absurd hc hslash

/-- A character is read as it was written. -/
theorem readString_escape (c : Char) (cs : List Char) :
    readString (escape c ++ cs) = .cons c (readString cs) := by
  unfold escape
  split
  · rfl
  · rfl
  · rfl
  · rfl
  · rfl
  · rfl
  · rfl
  · next hquote hslash _ _ _ _ _ =>
    split_ifs with h
    · exact readString_control h cs
    · exact readString_plain hquote hslash h cs

theorem readString_escapes (s rest : List Char) :
    readString (s.flatMap escape ++ '\x22' :: rest) = some (some s, rest) := by
  induction s with
  | nil => rfl
  | cons c s ih => rw [List.flatMap_cons, List.append_assoc, readString_escape, ih]; rfl

/-- Nothing but blanks. -/
def Blank (ws : List Char) : Prop := ∀ c ∈ ws, isSpace c = true

theorem blank_nil : Blank [] := List.forall_mem_nil _

theorem blank_newLine (depth : ℕ) : Blank (newLine depth) := by
  intro c hc
  rcases List.mem_cons.1 hc with rfl | hc
  · rfl
  · rw [List.eq_of_mem_replicate hc]
    rfl

theorem skipSpace_append {ws : List Char} (h : Blank ws) (cs : List Char) :
    skipSpace (ws ++ cs) = skipSpace cs :=
  List.dropWhile_append_of_pos h

theorem skipSpace_cons {c : Char} (h : isSpace c = false) (cs : List Char) :
    skipSpace (c :: cs) = c :: cs :=
  List.dropWhile_cons_of_neg (by simp [h])

theorem not_isSpace_of_digit {c : Char} (h : c.isDigit = true ∨ c = '-') : isSpace c = false := by
  cases hc : isSpace c with
  | false => rfl
  | true =>
    simp only [isSpace, Bool.or_eq_true, decide_eq_true_eq] at hc
    rcases hc with ((rfl | rfl) | rfl) | rfl <;> simp at h

theorem readValue_number {ds rest : List Char} (h : Number ds) (hr : Ends rest) (fuel : ℕ) :
    readValue (fuel + 1) (ds ++ rest) = some (.number ds, rest) := by
  have hread := h.read hr
  obtain ⟨c, cs, rfl, hc⟩ := h.exists_cons
  have hne {d : Char} (hd : d.isDigit = false ∧ d ≠ '-') : c ≠ d := by
    rintro rfl
    simp [hd] at hc
  rw [List.cons_append] at hread ⊢
  rw [readValue, skipSpace_cons (not_isSpace_of_digit hc)]
  -- No other kind of value starts like a number.
  split
  iterate 6 · next he => exact absurd (List.cons.inj he).1 (hne (by decide))
  · rw [hread]
    rfl

/-- What is written for the document is read as this document, blanks before it skipped. -/
structure Reads (v : Json) : Prop where
  opens : ∀ depth, ∃ c cs, write depth v = c :: cs ∧ isSpace c = false ∧ c ≠ ']'
  value : ∀ depth fuel ws rest, Blank ws → Ends rest → (write depth v).length ≤ fuel →
    readValue fuel (ws ++ (write depth v ++ rest)) = some (v, rest)

namespace Reads

variable {v : Json} {vs : List Json} {es : List (Option String × Json)}

/-- It is enough to read what is written once the blanks are skipped. -/
theorem of_opens (ho : ∀ depth, ∃ c cs, write depth v = c :: cs ∧ isSpace c = false ∧ c ≠ ']')
    (h : ∀ depth fuel rest, Ends rest → (write depth v).length ≤ fuel + 1 →
      readValue (fuel + 1) (write depth v ++ rest) = some (v, rest)) : Reads v := by
  refine ⟨ho, fun depth fuel ws rest hws hrest hfuel => ?_⟩
  obtain ⟨c, cs, hc, hspace, -⟩ := ho depth
  obtain ⟨fuel, rfl⟩ : ∃ n, fuel = n + 1 := by
    refine Nat.exists_eq_add_one.2 ?_
    rw [hc, List.length_cons] at hfuel
    omega
  have hread := h depth fuel rest hrest hfuel
  rw [readValue] at hread ⊢
  rwa [skipSpace_append hws]

theorem null : Reads .null :=
  of_opens (fun _ => ⟨_, _, rfl, rfl, by decide⟩) fun _ _ _ _ _ => rfl

@[simp] theorem boolean (b : Bool) : Reads (.boolean b) := by
  cases b with
  | true => exact of_opens (fun _ => ⟨_, _, rfl, rfl, by decide⟩) fun _ _ _ _ _ => rfl
  | false => exact of_opens (fun _ => ⟨_, _, rfl, rfl, by decide⟩) fun _ _ _ _ _ => rfl

@[simp] theorem text (s : String) : Reads (.text s) := by
  refine of_opens (fun _ => ⟨_, _, rfl, rfl, by decide⟩) fun depth fuel rest _ _ => ?_
  have hread := readString_escapes s.toList rest
  simp only [Json.text, write, quote, Option.getD_some, List.cons_append, List.append_assoc,
    List.nil_append]
  rw [readValue, skipSpace_cons rfl]
  simp only [hread, Option.map_some, String.ofList_toList]

theorem number {ds : List Char} (h : Number ds) : Reads (.number ds) := by
  refine of_opens (fun depth => ?_) fun depth fuel rest hrest _ => readValue_number h hrest fuel
  obtain ⟨c, cs, rfl, hc⟩ := h.exists_cons
  refine ⟨c, cs, rfl, not_isSpace_of_digit hc, ?_⟩
  rintro rfl
  simp at hc

@[simp] theorem nat (n : ℕ) : Reads (.nat n) := number (.unsigned (.nat n))

theorem ends_writeItems (depth d : ℕ) (vs : List Json) (rest : List Char) :
    Ends (writeItems depth vs ++ (newLine d ++ rest)) := by
  cases vs <;> simp [Ends, endsValue, isSpace, writeItems, newLine]

/-- The items of an array are read up to its end. -/
theorem readItems_write (hv : Reads v) (hvs : ∀ w ∈ vs, Reads w) (depth d fuel : ℕ)
    {ws : List Char} (rest : List Char) (hws : Blank ws)
    (hfuel : (write depth v).length + (writeItems depth vs).length + 1 ≤ fuel) :
    readItems fuel (ws ++ (write depth v ++ (writeItems depth vs ++ (newLine d ++ ']' :: rest)))) =
      some (v :: vs, rest) := by
  induction vs generalizing v fuel ws with
  | nil =>
    obtain ⟨fuel, rfl⟩ := Nat.exists_eq_add_one.2 (show 0 < fuel by omega)
    have hvalue :=
      hv.value depth fuel ws _ hws (ends_writeItems depth d [] (']' :: rest)) (by omega)
    rw [readItems, hvalue]
    simp only [Option.bind_eq_bind, Option.bind_some, writeItems, List.nil_append,
      skipSpace_append (blank_newLine d)]
    rfl
  | cons w vs ih =>
    obtain ⟨fuel, rfl⟩ := Nat.exists_eq_add_one.2 (show 0 < fuel by omega)
    obtain ⟨hw, hvs⟩ := List.forall_mem_cons.1 hvs
    have hvalue := hv.value depth fuel ws _ hws (ends_writeItems depth d (w :: vs) (']' :: rest))
      (by omega)
    have hitems := ih hw hvs fuel (blank_newLine depth) (by
      simp only [writeItems, List.cons_append, List.length_cons, List.length_append] at hfuel
      omega)
    rw [readItems, hvalue]
    simp only [Option.bind_eq_bind, Option.bind_some, writeItems, List.cons_append,
      List.append_assoc, skipSpace_cons (c := ',') rfl]
    rw [hitems]
    rfl

theorem array (h : ∀ w ∈ vs, Reads w) : Reads (.array vs) := by
  cases vs with
  | nil => exact of_opens (fun _ => ⟨_, _, rfl, rfl, by decide⟩) fun _ _ _ _ _ => rfl
  | cons v vs =>
    obtain ⟨hv, hvs⟩ := List.forall_mem_cons.1 h
    refine of_opens (fun _ => ⟨_, _, rfl, rfl, by decide⟩) fun depth fuel rest _ hfuel => ?_
    simp only [write, List.cons_append, List.append_assoc, List.nil_append]
    simp only [write, List.cons_append, List.append_assoc, List.length_cons,
      List.length_append] at hfuel
    have hitems := readItems_write hv hvs (depth + 1) depth fuel rest blank_nil (by omega)
    obtain ⟨c, cs, hc, hspace, hclose⟩ := hv.opens (depth + 1)
    rw [readValue, skipSpace_cons rfl]
    simp only [skipSpace_append (blank_newLine (depth + 1))]
    rw [List.nil_append, hc, List.cons_append] at hitems
    rw [hc, List.cons_append, skipSpace_cons hspace]
    split
    · next he => exact absurd (List.cons.inj he).1 hclose
    · rw [hitems]
      rfl

theorem ends_writeEntries (depth d : ℕ) (es : List (Option String × Json)) (rest : List Char) :
    Ends (writeEntries depth es ++ (newLine d ++ rest)) := by
  cases es <;> simp [Ends, endsValue, isSpace, writeEntries, newLine]

/-- What is read behind an entry: more entries, or the end of the object. -/
def readOn (fuel : ℕ) (entry : Option String × Json) (rest : List Char) :
    Option (List (Option String × Json) × List Char) :=
  match skipSpace rest with
  | ',' :: rest => (readEntries fuel rest).map fun (entries, rest) => (entry :: entries, rest)
  | '}' :: rest => some ([entry], rest)
  | _ => none

/-- A key and its value are read up to what follows the value. -/
theorem readEntries_succ (hv : Reads v) (key : String) (depth fuel : ℕ) {ws rest : List Char}
    (hws : Blank ws) (hrest : Ends rest) (hfuel : (write depth v).length ≤ fuel) :
    readEntries (fuel + 1) (ws ++ (writeEntry depth (some key, v) ++ rest)) =
      readOn fuel (some key, v) rest := by
  have hkey := readString_escapes key.toList (':' :: ' ' :: (write depth v ++ rest))
  have hvalue := hv.value depth fuel [' '] rest (List.forall_mem_singleton.2 rfl) hrest hfuel
  simp only [writeEntry, quote, Option.getD_some, List.cons_append, List.append_assoc,
    List.nil_append] at hvalue ⊢
  rw [readEntries, skipSpace_append hws, skipSpace_cons rfl]
  simp only [Option.bind_eq_bind, hkey, Option.bind_some, skipSpace_cons (c := ':') rfl, hvalue,
    Option.map_some, String.ofList_toList]
  rfl

/-- The entries of an object are read up to its end. -/
theorem readEntries_write (hv : Reads v) (hes : ∀ e ∈ es, e.1.isSome = true ∧ Reads e.2)
    (key : String) (depth d fuel : ℕ) {ws : List Char} (rest : List Char) (hws : Blank ws)
    (hfuel : (write depth v).length + (writeEntries depth es).length + 1 ≤ fuel) :
    readEntries fuel (ws ++ (writeEntry depth (some key, v) ++
        (writeEntries depth es ++ (newLine d ++ '}' :: rest)))) =
      some ((some key, v) :: es, rest) := by
  induction es generalizing v key fuel ws with
  | nil =>
    obtain ⟨fuel, rfl⟩ := Nat.exists_eq_add_one.2 (show 0 < fuel by omega)
    rw [readEntries_succ hv key depth fuel hws (ends_writeEntries depth d [] _) (by omega)]
    simp only [readOn, writeEntries, List.nil_append, skipSpace_append (blank_newLine d)]
    rfl
  | cons e es ih =>
    obtain ⟨fuel, rfl⟩ := Nat.exists_eq_add_one.2 (show 0 < fuel by omega)
    obtain ⟨⟨hkey, hw⟩, htail⟩ := List.forall_mem_cons.1 hes
    obtain ⟨key', w⟩ := e
    obtain ⟨key', rfl⟩ := Option.isSome_iff_exists.1 hkey
    have hentries := ih (v := w) hw htail key' fuel (blank_newLine depth) (by
      simp only [writeEntries, writeEntry, List.cons_append, List.length_cons,
        List.length_append] at hfuel
      omega)
    rw [readEntries_succ hv key depth fuel hws (ends_writeEntries depth d (_ :: es) _) (by omega)]
    simp only [readOn, writeEntries, List.cons_append, List.append_assoc,
      skipSpace_cons (c := ',') rfl]
    rw [hentries]
    rfl

theorem object (h : ∀ e ∈ es, e.1.isSome = true ∧ Reads e.2) : Reads (.object es) := by
  cases es with
  | nil => exact of_opens (fun _ => ⟨_, _, rfl, rfl, by decide⟩) fun _ _ _ _ _ => rfl
  | cons e es =>
    obtain ⟨⟨hkey, hv⟩, htail⟩ := List.forall_mem_cons.1 h
    obtain ⟨key, v⟩ := e
    obtain ⟨key, rfl⟩ := Option.isSome_iff_exists.1 hkey
    refine of_opens (fun _ => ⟨_, _, rfl, rfl, by decide⟩) fun depth fuel rest _ hfuel => ?_
    simp only [write, List.cons_append, List.append_assoc, List.nil_append]
    simp only [write, writeEntry, List.cons_append, List.append_assoc, List.length_cons,
      List.length_append] at hfuel
    have hentries :=
      readEntries_write (v := v) hv htail key (depth + 1) depth fuel rest blank_nil (by omega)
    rw [readValue, skipSpace_cons rfl]
    simp only [skipSpace_append (blank_newLine (depth + 1))]
    rw [List.nil_append] at hentries
    have hopens : ∃ cs, writeEntry (depth + 1) (some key, v) = '\x22' :: cs := ⟨_, rfl⟩
    obtain ⟨cs, hcs⟩ := hopens
    rw [hcs, List.cons_append] at hentries ⊢
    rw [skipSpace_cons rfl]
    split
    · next he => exact absurd (List.cons.inj he).1 (by decide)
    · rw [hentries]
      rfl

theorem record {entries : List (String × Json)} (h : ∀ e ∈ entries, Reads e.2) :
    Reads (Json.record entries) :=
  object (List.forall_mem_map.2 fun e he => ⟨rfl, h e he⟩)

end Reads

/-- A document is what its text holds, also at the front of blanks that start a new line. -/
theorem read?_write {v : Json} (h : Reads v) {rest : List Char} (hends : Ends rest)
    (hblank : Blank rest) : read? (write 0 v ++ rest) = some v := by
  have hvalue := h.value 0 (2 * (write 0 v ++ rest).length + 2) [] rest blank_nil hends (by
    rw [List.length_append]
    omega)
  have hrest : skipSpace rest = [] := List.dropWhile_eq_nil_iff.2 hblank
  rw [List.nil_append] at hvalue
  rw [read?, hvalue]
  simp only [hrest, List.isEmpty_nil, if_true]

theorem read?_render {v : Json} (h : Reads v) : read? v.render.toList = some v := by
  have hread : read? (write 0 v ++ []) = some v := read?_write h (by simp [Ends]) blank_nil
  rwa [List.append_nil, ← String.toList_ofList (l := write 0 v)] at hread

end QualityGate.Json
