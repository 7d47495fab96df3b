import QualityGate.Proofs.DesignToken.Unused

/-!
Variables in the two checks on tokens. A reference to a variable may have blanks around the variable
and a fallback behind it, and then still excuses a color beside it. But what refers to a token is
only a reference without blanks and fallback, behind no other one that is still open.
-/
namespace QualityGate

open Syntax Node Text

namespace Color

variable {name front cs text rest : List Char} {c : Char}

/-- A character of the name of a variable: no blank, and nothing that ends the name. -/
def IsNamePart (c : Char) : Prop := isBlank c = false ∧ c ≠ ',' ∧ c ≠ ')'

instance : DecidablePred IsNamePart := fun c =>
  inferInstanceAs (Decidable (isBlank c = false ∧ c ≠ ',' ∧ c ≠ ')'))

instance (cs : List Char) : Decidable (∀ c ∈ cs, IsNamePart c) := List.decidableBAll IsNamePart cs

/-- What follows the name of a variable that has a fallback. -/
def fallbackText (fallback : Option (List Char)) : List Char := (fallback.map (',' :: ·)).getD []

/-- A reference to a variable in a text: `var(--name)`, with blanks around `--name` and with a
fallback behind a comma, if there is one. -/
structure VariableUse (text : List Char) where
  front : List Char
  before : List Char
  name : List Char
  behind : List Char
  fallback : Option (List Char)
  rest : List Char
  ne_nil : name ≠ []
  isNamePart : ∀ c ∈ name, IsNamePart c
  blank_before : ∀ c ∈ before, isBlank c = true
  blank_behind : ∀ c ∈ behind, isBlank c = true
  eq : text = front ++ ("var(".toList ++ (before ++ ("--".toList ++
    (name ++ (behind ++ (fallbackText fallback ++ ')' :: rest))))))

theorem anySuffix_append {p : List Char → Bool} (front : List Char) (h : p cs = true) :
    anySuffix p (front ++ cs) = true := by
  induction front with
  | nil => cases cs <;> simp [anySuffix, h]
  | cons c front ih => rw [List.cons_append, anySuffix, ih, Bool.or_true]

theorem beginsVariable_append {before : List Char} (h : ∀ c ∈ before, isBlank c = true)
    (cs : List Char) :
    beginsVariable ("var(".toList ++ (before ++ ("--".toList ++ cs))) = true := by
  have hafter : after? "var".toList ("var(".toList ++ (before ++ ("--".toList ++ cs))) =
      some ('(' :: (before ++ ("--".toList ++ cs))) := after?_eq_some_iff.2 rfl
  have hparen : ('(' :: (before ++ ("--".toList ++ cs))).dropWhile isBlank =
      '(' :: (before ++ ("--".toList ++ cs)) := List.dropWhile_cons_of_neg (by decide)
  have hdash : ("--".toList ++ cs).dropWhile isBlank = "--".toList ++ cs :=
    List.dropWhile_cons_of_neg (by decide)
  rw [beginsVariable, hafter]
  simp only [hparen, List.dropWhile_append_of_pos h, hdash, List.isPrefixOf_iff_prefix,
    List.prefix_append]

/-- The check on colors takes every reference to a variable for one, blanks and fallback or not. -/
theorem hasLiteral_of_use {value : String} (use : VariableUse value.toList) :
    hasLiteral value = false := by
  rw [hasLiteral, use.eq, anySuffix_append use.front (beginsVariable_append use.blank_before _),
    Bool.not_true, Bool.and_false]

/-- Each `var(--` in the text is closed in it. -/
def NoneOpen (text : List Char) : Prop :=
  ∀ front rest, text = front ++ ("var(--".toList ++ rest) → ')' ∈ rest

theorem noneOpen_nil : NoneOpen [] := fun front rest h => by
  have hlength := congrArg List.length h
  simp at hlength

theorem NoneOpen.of_append (h : NoneOpen (front ++ cs)) : NoneOpen cs := by
  rintro a b rfl
  exact h (front ++ a) b (List.append_assoc ..).symm

theorem Reference.head?_eq (h : Reference name rest cs) : cs.head? = some 'v' := by
  obtain ⟨-, -, rfl⟩ := h
  rfl

/-- What is read in front of a reference ends in front of it, if none is open there. -/
theorem Reference.exists_append {other after : List Char} (h : Reference other after (front ++ cs))
    (hopen : NoneOpen front) (hne : front ≠ []) (hnext : cs.head? = some 'v') :
    ∃ more, front = "var(--".toList ++ (other ++ [')']) ++ more ∧ after = more ++ cs := by
  obtain ⟨-, hclosed, htext⟩ := h
  have htext : front ++ cs = "var(--".toList ++ (other ++ [')']) ++ after := by simpa using htext
  rcases List.append_eq_append_iff.1 htext with ⟨cut, hcut, hcs⟩ | ⟨more, hfront, hafter⟩
  · cases cut with
    | nil => exact ⟨[], by simpa using hcut.symm, by simpa using hcs.symm⟩
    | cons d cut =>
      obtain rfl : d = 'v' := by simpa [hcs] using hnext
      exfalso
      rcases List.append_eq_append_iff.1 hcut with ⟨inner, hfront, hinner⟩ | ⟨inner, hfront, hinner⟩
      · have hother : other = inner ++ ('v' :: cut).dropLast := by
          rw [← List.dropLast_append_of_ne_nil (List.cons_ne_nil _ _), ← hinner,
            List.dropLast_concat]
        refine hclosed (hother ▸ List.mem_append_left _ (hopen [] inner ?_))
        simpa using hfront
      · obtain ⟨first, front, rfl⟩ := List.exists_cons_of_ne_nil hne
        cases inner with
        | nil => exact List.not_mem_nil (hopen [] [] (by simpa using hfront.symm))
        | cons e inner =>
          obtain rfl : 'v' = e := (List.cons.inj hinner).1
          have hmem : 'v' ∈ "ar(--".toList := by
            rw [show "ar(--".toList = front ++ 'v' :: inner from (List.cons.inj hfront).2]
            simp
          exact absurd hmem (by decide)
  · exact ⟨more, hfront, hafter⟩

theorem mentions_of_noneOpen (hopen : NoneOpen front) (h : Reference name rest cs) :
    Mentions name (front ++ cs) := by
  induction hlength : front.length using Nat.strongRecOn generalizing front with
  | ind n ih =>
    cases front with
    | nil => exact .here h
    | cons c tail =>
      by_cases hnone : ∀ other after, ¬ Reference other after (c :: tail ++ cs)
      · have htail : NoneOpen tail := @NoneOpen.of_append [c] tail hopen
        exact .further hnone (ih tail.length (by simp [← hlength]) htail rfl)
      · simp only [not_forall, not_not] at hnone
        obtain ⟨other, after, href⟩ := hnone
        obtain ⟨more, hmore, rfl⟩ := href.exists_append hopen (List.cons_ne_nil c tail) h.head?_eq
        have hshorter : more.length < n := by
          rw [← hlength, hmore]
          simp only [List.length_append, List.length_singleton]
          omega
        exact .behind href (ih more.length hshorter (NoneOpen.of_append (hmore ▸ hopen)) rfl)

/-- Behind a reference that is closed, none is open but those that begin there. -/
theorem NoneOpen.behind (h : NoneOpen front) (other : List Char) :
    NoneOpen ("var(--".toList ++ (other ++ [')']) ++ front) := by
  intro a b hab
  rcases List.append_eq_append_iff.1 hab with ⟨cut, -, hcut⟩ | ⟨cut, hcut, hb⟩
  · exact h cut b hcut
  · rcases List.eq_nil_or_concat' cut with rfl | ⟨start, d, rfl⟩
    · exact h [] b (by simpa using hb.symm)
    · obtain rfl : ')' = d := by
        rw [← List.append_assoc, ← List.append_assoc] at hcut
        exact (List.append_inj' hcut rfl).2 |> List.singleton_inj.1
      have hmem : ')' ∈ "var(--".toList ++ b := hb ▸ by simp
      exact (List.mem_append.1 hmem).resolve_left (by decide)

/-- A reference is read just if none is open in front of it. -/
theorem mentions_iff : Mentions name text ↔
    ∃ front cs rest, text = front ++ cs ∧ NoneOpen front ∧ Reference name rest cs := by
  constructor
  · intro h
    induction h with
    | @here rest cs h => exact ⟨[], cs, rest, rfl, noneOpen_nil, h⟩
    | @behind other _ _ h _ ih =>
      obtain ⟨front, next, rest, rfl, hopen, hnext⟩ := ih
      obtain ⟨-, -, rfl⟩ := h
      exact ⟨_, next, rest, by simp, hopen.behind other, hnext⟩
    | @further c cs hnone _ ih =>
      obtain ⟨front, next, rest, rfl, hopen, hnext⟩ := ih
      refine ⟨c :: front, next, rest, rfl, fun a b hab => ?_, hnext⟩
      cases a with
      | nil =>
        -- A reference would begin at the front, as the one that is read is closed.
        by_contra hb
        obtain ⟨hne, hclosed, rfl⟩ := hnext
        refine hnone (b ++ ("var(--".toList ++ name)) rest ⟨by simp, ?_, ?_⟩
        · simp [hb, hclosed]
        · rw [← List.cons_append, hab]
          simp
      | cons d a => exact hopen a b (List.cons.inj hab).2
  · rintro ⟨front, cs, rest, rfl, hopen, h⟩
    exact mentions_of_noneOpen hopen h

/-- The reference is written without blanks and without a fallback, and none is open in front of
it. -/
structure VariableUse.IsPlain (use : VariableUse text) : Prop where
  before : use.before = []
  behind : use.behind = []
  fallback : use.fallback = none
  noneOpen : NoneOpen use.front

/-- What is read as the name of a variable is one in a plain reference. -/
theorem mentions_iff_use (h : ∀ c ∈ name, isBlank c = false ∧ c ≠ ',') :
    Mentions name text ↔ ∃ use : VariableUse text, use.name = name ∧ use.IsPlain := by
  rw [mentions_iff]
  constructor
  · rintro ⟨front, cs, rest, rfl, hopen, hne, hclosed, rfl⟩
    have hpart : ∀ c ∈ name, IsNamePart c := fun c hc =>
      ⟨(h c hc).1, (h c hc).2, ne_of_mem_of_not_mem hc hclosed⟩
    exact ⟨⟨front, [], name, [], none, rest, hne, hpart, by simp, by simp, rfl⟩, rfl, rfl,
      rfl, rfl, hopen⟩
  · rintro ⟨use, rfl, hbefore, hbehind, hfallback, hopen⟩
    refine ⟨use.front, _, use.rest, use.eq, hopen, use.ne_nil,
      fun hmem => (use.isNamePart _ hmem).2.2 rfl, ?_⟩
    rw [hbefore, hbehind, hfallback]
    rfl

end Color

namespace DesignToken

def blankCodes : List Nat :=
  [0x09, 0x0a, 0x0b, 0x0c, 0x0d, 0x20, 0x85, 0xa0, 0x1680, 0x2000, 0x2001, 0x2002, 0x2003,
    0x2004, 0x2005, 0x2006, 0x2007, 0x2008, 0x2009, 0x200a, 0x2028, 0x2029, 0x202f, 0x205f, 0x3000]

theorem upper_blank {c : Char} (h : isBlank c = true) : upper [c] = [c] := by
  have hcode : c.toNat ∈ blankCodes := by
    simp only [isBlank, Bool.or_eq_true, Bool.and_eq_true, decide_eq_true_eq] at h
    simp only [blankCodes, List.mem_cons, List.not_mem_nil, or_false]
    omega
  have hupper : ∀ n ∈ blankCodes, upper [Char.ofNat n] = [Char.ofNat n] := by decide +kernel
  rw [← Char.ofNat_toNat c]
  exact hupper _ hcode

/-- What has no capital form stays in camel case. -/
theorem mem_camelCase {c : Char} (hupper : upper [c] = [c]) (hdash : c ≠ '-') {cs : List Char}
    (h : c ∈ cs) (raised : Bool) : c ∈ camelCase raised cs := by
  induction cs generalizing raised with
  | nil => exact h
  | cons d cs ih =>
    rw [camelCase]
    rcases List.mem_cons.1 h with rfl | h
    · rw [if_neg hdash]
      cases raised <;> simp [hupper]
    · split_ifs
      · exact ih h true
      · exact List.mem_append_right _ (ih h false)
      · exact List.mem_append_right _ (ih h false)

/-- No blank and no comma, as in every identifier. -/
def IsTokenName (name : String) : Prop := ∀ c ∈ name.toList, isBlank c = false ∧ c ≠ ','

instance : DecidablePred IsTokenName := fun name =>
  List.decidableBAll (fun c => isBlank c = false ∧ c ≠ ',') name.toList

theorem not_blank_of_camelCase {kebab : List Char}
    (h : IsTokenName (String.ofList (camelCase false kebab))) :
    ∀ c ∈ kebab, isBlank c = false ∧ c ≠ ',' := by
  intro c hc
  simp only [IsTokenName, String.toList_ofList] at h
  constructor
  · by_contra hblank
    rw [Bool.not_eq_false] at hblank
    have hdash : c ≠ '-' := by
      rintro rfl
      exact absurd hblank (by decide)
    have hkept := (h c (mem_camelCase (upper_blank hblank) hdash hc false)).1
    exact Bool.false_ne_true (hkept.symm.trans hblank)
  · rintro rfl
    exact (h ',' (mem_camelCase (by decide +kernel) (by decide) hc false)).2 rfl

/-- The file refers to a token by an access to an object that holds tokens, or by an import. -/
def RefersDirectly (file : SourceFile) (name : String) : Prop :=
  (∃ p ∈ places [] file.root, accessed? file p.node = some name) ∨
    ∃ i ∈ Import.ofFile file, ∃ b ∈ i.bindings, b.imported = name ∨ b.bound = name

/-- The file has, in one of its strings, a plain reference to a variable whose form in camel case is
the token. -/
def RefersPlainly (file : SourceFile) (name : String) : Prop :=
  ∃ p ∈ places [] file.root, ∃ value, file.stringValue? p.node = some value ∧
    ∃ use : Color.VariableUse value.toList, String.ofList (camelCase false use.name) =
      name ∧ use.IsPlain

variable {file : SourceFile} {name : String}

theorem refers_iff (h : IsTokenName name) :
    Refers file name ↔ RefersDirectly file name ∨ RefersPlainly file name := by
  constructor
  · rintro (⟨hp, haccess, hkind, hname⟩ | ⟨hp, haccess, hkind, hname⟩ | ⟨hp, hvalue, hkebab, rfl⟩ |
      ⟨hi, hb, hname⟩)
    · exact .inl (.inl ⟨_, hp, accessed?_eq_some_iff.2 ⟨haccess, .inl ⟨hkind, hname⟩⟩⟩)
    · exact .inl (.inl ⟨_, hp, accessed?_eq_some_iff.2 ⟨haccess, .inr ⟨hkind, hname⟩⟩⟩)
    · obtain ⟨use, rfl, hplain⟩ := (Color.mentions_iff_use (not_blank_of_camelCase h)).1 hkebab
      exact .inr ⟨_, hp, _, hvalue, use, rfl, hplain⟩
    · exact .inl (.inr ⟨_, hi, _, hb, hname⟩)
  · rintro ((⟨p, hp, haccess⟩ | ⟨i, hi, b, hb, hname⟩) | ⟨p, hp, value, hvalue, use, rfl, hplain⟩)
    · exact refers_of_mem_usedAt hp (List.mem_append_left _ (Option.mem_toList.2 haccess))
    · exact .imported hi hb hname
    · have hmentions := (Color.mentions_iff_use (not_blank_of_camelCase h)).2 ⟨use, rfl, hplain⟩
      exact .variable hp hvalue hmentions rfl

theorem unusedBreach_injective : Function.Injective unusedBreach := by
  intro a b h
  have hmessage := congrArg (fun v : Violation => v.message.toList) h
  simpa [unusedBreach, Violation.warning, String.toList_inj] using hmessage

variable {settings : Settings} {files : List SourceFile} {tokens : SourceFile}

theorem mem_unused_iff (h : tokensFile? settings files = some tokens) :
    unusedBreach name ∈ unused settings files ↔
      name ∈ exportedNames tokens ∧ Unreferenced files tokens name := by
  rw [unused_eq h, List.mem_map_of_injective unusedBreach_injective, List.mem_filter,
    decide_eq_true_iff]

/-- Every reference to a variable excuses a color beside it, but only a plain one in another file
keeps the token that the variable stands for from being reported. So an exported token is reported
just if no other file refers to it by an access, by an import or by a plain reference. -/
theorem unused_variable_iff (h : tokensFile? settings files = some tokens) :
    (∀ file ∈ files, file.path.same tokens.path = false → ∀ p ∈ places [] file.root, ∀ value,
      file.stringValue? p.node = some value → ∀ use : Color.VariableUse value.toList,
        Color.hasLiteral value = false ∧
          (use.IsPlain → unusedBreach (String.ofList (camelCase false use.name)) ∉
            unused settings files)) ∧
      ∀ name ∈ exportedNames tokens, IsTokenName name →
        (unusedBreach name ∈ unused settings files ↔
          ∀ file ∈ files, file.path.same tokens.path = false →
          ¬ RefersDirectly file name ∧ ¬ RefersPlainly file name) := by
  refine ⟨fun file hfile hother p hp value hvalue use =>
    ⟨Color.hasLiteral_of_use use, fun hplain hmem => ?_⟩, fun name hexported hname => ?_⟩
  · have hpart : ∀ c ∈ use.name, isBlank c = false ∧ c ≠ ',' := fun c hc =>
      ⟨(use.isNamePart c hc).1, (use.isNamePart c hc).2.1⟩
    have hkebab : Color.Mentions use.name value.toList :=
      (Color.mentions_iff_use hpart).2 ⟨use, rfl, hplain⟩
    exact ((mem_unused_iff h).1 hmem).2 file hfile hother (.variable hp hvalue hkebab rfl)
  · rw [mem_unused_iff h, and_iff_right hexported, Unreferenced]
    simp only [refers_iff hname, not_or]

/-- Of three tokens, one is the value of a variable with a plain reference. The references to the
others have a blank, and a fallback. -/
theorem unused_variable_iff_page : ∃ tokens page,
    SourceFile.parse ⟨"tokens.ts"⟩ "export const gap = 1, spacingLg = 2, colorRed = 3;" =
      .ok tokens ∧
      SourceFile.parse
        ⟨"page.ts"⟩ "f('var(--gap)', 'var( --spacing-lg)', 'var(--color-red, red)');" = .ok page ∧
      tokensFile? .default [tokens, page] = some tokens ∧
      ((∀ file ∈ [tokens, page], file.path.same tokens.path = false →
        ∀ p ∈ places [] file.root, ∀ value, file.stringValue? p.node = some value →
          ∀ use : Color.VariableUse value.toList, Color.hasLiteral value = false ∧ (use.IsPlain →
            unusedBreach (String.ofList (camelCase false use.name)) ∉
              unused .default [tokens, page])) ∧
        ∀ name ∈ exportedNames tokens, IsTokenName name →
          (unusedBreach name ∈ unused .default [tokens, page] ↔
            ∀ file ∈ [tokens, page], file.path.same tokens.path = false →
              ¬ RefersDirectly file name ∧ ¬ RefersPlainly file name)) ∧
      (∀ name ∈ exportedNames tokens, IsTokenName name) ∧
      unused .default [tokens, page] = [unusedBreach "spacingLg", unusedBreach "colorRed"] := by
  have hrun : (SourceFile.parse ⟨"tokens.ts"⟩
    "export const gap = 1, spacingLg = 2, colorRed = 3;").toOption.any
      (fun tokens : SourceFile => (SourceFile.parse ⟨"page.ts"⟩
        "f('var(--gap)', 'var( --spacing-lg)', 'var(--color-red, red)');").toOption.any
          (fun page : SourceFile =>
          isTokensFile .default tokens = true ∧ (∀ name ∈ exportedNames tokens, IsTokenName name) ∧
            unused .default [tokens, page] = [unusedBreach "spacingLg", unusedBreach "colorRed"])) =
              true := by
    decide +kernel
  obtain ⟨tokens, htokens, h⟩ := exists_ok_of_any hrun
  obtain ⟨page, hpage, h⟩ := exists_ok_of_any h
  obtain ⟨hmodule, hnames, hunused⟩ := of_decide_eq_true h
  have hfirst : tokensFile? .default [tokens, page] = some tokens := by
    simp [tokensFile?_eq, hmodule]
  exact ⟨tokens, page, htokens, hpage, hfirst, unused_variable_iff hfirst, hnames, hunused⟩

def loosePage : String :=
  "f('var( --spacing-lg)', 'var(--color-red, red)', 'var(--x, var(--gap))');"

def spacedUse : Color.VariableUse "var( --spacing-lg)".toList :=
  ⟨[], [' '], "spacing-lg".toList, [], none, [], by decide, by decide,
    List.forall_mem_singleton.2 (by decide), List.forall_mem_nil _, by decide⟩

def fallbackUse : Color.VariableUse "var(--color-red, red)".toList :=
  ⟨[], [], "color-red".toList, [], some " red".toList, [], by decide, by decide,
    List.forall_mem_nil _, List.forall_mem_nil _, by decide⟩

def innerUse : Color.VariableUse "var(--x, var(--gap))".toList :=
  ⟨"var(--x, ".toList, [], "gap".toList, [], none, [')'], by decide, by decide,
    List.forall_mem_nil _, List.forall_mem_nil _, by decide⟩

/-- Three tokens that a page refers to by variables, in strings that are excused, are reported. -/
theorem unused_of_loosePage : ∃ tokens page,
    SourceFile.parse ⟨"tokens.ts"⟩ "export const spacingLg = 1, colorRed = 2, gap = 3;" =
      .ok tokens ∧
      SourceFile.parse ⟨"page.ts"⟩ loosePage = .ok page ∧ page.path.same tokens.path = false ∧
      (∀ name ∈ ["spacingLg", "colorRed", "gap"], name ∈ exportedNames tokens ∧
        ∃ p ∈ places [] page.root, ∃ value, page.stringValue? p.node = some value ∧
          Color.hasLiteral value = false ∧
            ∃ use : Color.VariableUse value.toList,
              String.ofList (camelCase false use.name) = name) ∧
      unused .default [tokens, page] =
        [unusedBreach "spacingLg", unusedBreach "colorRed", unusedBreach "gap"] := by
  have hrun : (SourceFile.parse ⟨"tokens.ts"⟩
    "export const spacingLg = 1, colorRed = 2, gap = 3;").toOption.any
      (fun tokens : SourceFile =>
        (SourceFile.parse ⟨"page.ts"⟩ loosePage).toOption.any (fun page : SourceFile =>
        page.path.same tokens.path = false ∧ exportedNames tokens =
          ["spacingLg", "colorRed", "gap"] ∧
          (∀ value ∈ ["var( --spacing-lg)", "var(--color-red, red)", "var(--x, var(--gap))"],
            ∃ p ∈ places [] page.root, page.stringValue? p.node = some value) ∧
          unused .default [tokens, page] =
            [unusedBreach "spacingLg", unusedBreach "colorRed", unusedBreach "gap"])) = true := by
    decide +kernel
  obtain ⟨tokens, htokens, h⟩ := exists_ok_of_any hrun
  obtain ⟨page, hpage, h⟩ := exists_ok_of_any h
  obtain ⟨hother, hexported, hvalues, hunused⟩ := of_decide_eq_true h
  simp only [List.forall_mem_cons] at hvalues
  obtain ⟨⟨p, hp, hspaced⟩, ⟨q, hq, hfallback⟩, ⟨r, hr, hinner⟩, -⟩ := hvalues
  refine ⟨tokens, page, htokens, hpage, hother, ?_, hunused⟩
  simp only [hexported, List.forall_mem_cons]
  exact ⟨⟨by simp, p, hp, _, hspaced, Color.hasLiteral_of_use spacedUse,
    spacedUse, by
    decide +kernel⟩, ⟨by simp, q, hq, _, hfallback, Color.hasLiteral_of_use fallbackUse,
      fallbackUse, by
      decide +kernel⟩,
        ⟨by simp, r, hr, _, hinner, Color.hasLiteral_of_use innerUse, innerUse, by decide +kernel⟩,
    List.forall_mem_nil _⟩

end DesignToken
end QualityGate
