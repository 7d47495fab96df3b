import QualityGate.Proofs.Json.Number
import QualityGate.Json.Relaxed

/-!
The grammar of documents, of strict ones and of ones with comments and trailing commas. Each
relation holds of a text and of what is left of it behind the part that the relation describes.
-/
namespace QualityGate.Json

/-- What a text may hold besides the tokens of a strict document. -/
structure Layout where
  comments : Bool
  /-- Commas in front of closing brackets. -/
  commas : Bool

namespace Layout

def strict : Layout := ⟨false, false⟩

def relaxed : Layout := ⟨true, true⟩

end Layout

/-- A document with its numbers and strings as they are written. -/
inductive Literal
  | null
  | boolean (value : Bool)
  | number (digits : List Char)
  /-- A string, as it stands between its quotes. -/
  | string (raw : List Char)
  | array (items : List Literal)
  | object (entries : List (List Char × Literal))

/-- What the characters between two quotes stand for. -/
def decode (raw : List Char) : Option String :=
  ((readString (raw ++ ['\x22'])).bind (·.1)).map String.ofList

mutual
def Literal.value : Literal → Json
  | .null => .null
  | .boolean b => .boolean b
  | .number ds => .number ds
  | .string raw => .string (decode raw)
  | .array items => .array (values items)
  | .object entries => .object (valuesOfEntries entries)

def values : List Literal → List Json
  | [] => []
  | t :: ts => t.value :: values ts

def valuesOfEntries : List (List Char × Literal) → List (Option String × Json)
  | [] => []
  | (key, t) :: es => (decode key, t.value) :: valuesOfEntries es
end

/-- What stands between the quotes of a string: no control characters, and quotes and backslashes
only in escapes. -/
inductive Chars : List Char → Prop
  | nil : Chars []
  | plain {c : Char} {cs : List Char} (hquote : c ≠ '\x22') (hslash : c ≠ '\\')
    (hcontrol : ¬ c.toNat < 0x20) (h : Chars cs) : Chars (c :: cs)
  | escape {c : Char} {cs : List Char} (hc : c ∈ ['\x22', '\\', '/', 'b', 'f', 'n', 'r', 't'])
    (h : Chars cs) : Chars ('\\' :: c :: cs)
  | unicode {a b c d : Char} {cs : List Char}
    (hex : ∀ x ∈ [a, b, c, d], (hexDigit? x).isSome = true) (h : Chars cs) :
    Chars ('\\' :: 'u' :: a :: b :: c :: d :: cs)

/-- What may stand between two tokens. A comment in slashes goes on to the end of its line, or of
the text. -/
inductive Gap (comments : Bool) : List Char → List Char → Prop
  | done {rest : List Char} : Gap comments rest rest
  | space {c : Char} {cs rest : List Char} (hc : isSpace c = true) (h : Gap comments cs rest) :
    Gap comments (c :: cs) rest
  | line {body cs rest : List Char} (hc : comments = true) (hbody : '\n' ∉ body)
    (h : Gap comments cs rest) : Gap comments ('/' :: '/' :: (body ++ '\n' :: cs)) rest
  | lastLine {body : List Char} (hc : comments = true) (hbody : '\n' ∉ body) :
    Gap comments ('/' :: '/' :: body) []
  | starred {body cs rest : List Char} (hc : comments = true) (hbody : ¬ ['*', '/'] <:+: body)
    (h : Gap comments cs rest) : Gap comments ('/' :: '*' :: (body ++ '*' :: '/' :: cs)) rest

/-- The end of an array or object, with a comma before the bracket or without one. -/
inductive Closing (layout : Layout) (bracket : Char) : List Char → List Char → Prop
  | bare {cs rest : List Char} (h : Gap layout.comments cs (bracket :: rest)) :
    Closing layout bracket cs rest
  | comma {cs mid rest : List Char} (hc : layout.commas =
    true) (h : Gap layout.comments cs (',' :: mid))
    (k : Gap layout.comments mid (bracket :: rest)) : Closing layout bracket cs rest

mutual
/-- One value, from its first character on. -/
inductive Written (layout : Layout) : Literal → List Char → List Char → Prop
  | null {rest : List Char} : Written layout .null (['n', 'u', 'l', 'l'] ++ rest) rest
  | wordTrue {rest : List Char} : Written layout (.boolean true) (['t', 'r', 'u', 'e'] ++ rest) rest
  | wordFalse {rest : List Char} :
    Written layout (.boolean false) (['f', 'a', 'l', 's', 'e'] ++ rest) rest
  | number {ds rest : List Char} (h : Number ds) : Written layout (.number ds) (ds ++ rest) rest
  | string {raw rest : List Char} (h : Chars raw) :
    Written layout (.string raw) ('\x22' :: (raw ++ '\x22' :: rest)) rest
  | emptyArray {cs rest : List Char} (h : Closing layout ']' cs rest) :
    Written layout (.array []) ('[' :: cs) rest
  | array {ts : List Literal} {cs rest : List Char} (h : WrittenItems layout ts cs rest) :
    Written layout (.array ts) ('[' :: cs) rest
  | emptyObject {cs rest : List Char} (h : Closing layout '}' cs rest) :
    Written layout (.object []) ('{' :: cs) rest
  | object {es : List (List Char × Literal)} {cs rest : List Char}
    (h : WrittenEntries layout es cs rest) :
    Written layout (.object es) ('{' :: cs) rest

/-- One item or more, from behind a bracket or comma up to behind the closing bracket. -/
inductive WrittenItems (layout : Layout) : List Literal → List Char → List Char → Prop
  | last {t : Literal} {cs front back rest : List Char} (hgap : Gap layout.comments cs front)
    (h : Written layout t front back) (hclose : Closing layout ']' back rest) :
    WrittenItems layout [t] cs rest
  | more {t : Literal} {ts : List Literal} {cs front back next rest : List Char}
    (hgap : Gap layout.comments cs front) (h : Written layout t front back)
    (hcomma : Gap layout.comments back (',' :: next)) (k : WrittenItems layout ts next rest) :
    WrittenItems layout (t :: ts) cs rest

inductive WrittenEntry (layout : Layout) : List Char × Literal → List Char → List Char → Prop
  | mk {key : List Char} {t : Literal} {cs front mid back rest : List Char}
    (hgap : Gap layout.comments cs ('\x22' :: (key ++ '\x22' :: front))) (hkey : Chars key)
    (hcolon : Gap layout.comments front (':' :: mid)) (hvalue : Gap layout.comments mid back)
    (h : Written layout t back rest) : WrittenEntry layout (key, t) cs rest

inductive WrittenEntries (layout : Layout) :
    List (List Char × Literal) → List Char → List Char → Prop
  | last {e : List Char × Literal} {cs back rest : List Char} (h : WrittenEntry layout e cs back)
    (hclose : Closing layout '}' back rest) : WrittenEntries layout [e] cs rest
  | more {e : List Char × Literal} {es : List (List Char × Literal)} {cs back next rest : List Char}
    (h : WrittenEntry layout e cs back) (hcomma : Gap layout.comments back (',' :: next))
    (k : WrittenEntries layout es next rest) : WrittenEntries layout (e :: es) cs rest
end

/-- A whole text, written for one document. -/
def Document (layout : Layout) (t : Literal) (cs : List Char) : Prop :=
  ∃ front back, Gap layout.comments cs front ∧ Written layout t front back ∧
    Gap layout.comments back []

variable {layout : Layout} {comments : Bool} {t : Literal} {c : Char} {cs rest : List Char}

theorem Gap.trans {mid : List Char} (h : Gap comments cs mid) (k : Gap comments mid rest) :
    Gap comments cs rest := by
  induction h with
  | done => exact k
  | space hc _ ih => exact .space hc (ih k)
  | line hc hbody _ ih => exact .line hc hbody (ih k)
  | lastLine hc hbody =>
    cases k
    exact .lastLine hc hbody
  | starred hc hbody _ ih => exact .starred hc hbody (ih k)

/-- Where comments have no place, blanks are all that stands between two tokens. -/
@[elab_as_elim]
theorem Gap.blanks {motive : (cs rest : List Char) → Gap false cs rest → Prop}
    (done : ∀ rest, motive rest rest .done)
    (space : ∀ {c cs rest} (hc : isSpace c = true) (h : Gap false cs rest), motive cs rest h →
      motive (c :: cs) rest (.space hc h))
    {cs rest : List Char} (h : Gap false cs rest) : motive cs rest h := by
  induction h with
  | done => exact done _
  | space hc h ih => exact space hc h ih
  | line hc | lastLine hc | starred hc => exact absurd hc (by decide)

theorem Closing.gap {bracket : Char} (h : Closing .strict bracket cs rest) :
    Gap false cs (bracket :: rest) := by
  cases h with
  | bare h => exact h
  | comma hc => exact absurd hc (by decide)

theorem Gap.items {mid : List Char} {ts : List Literal} (h : Gap layout.comments cs mid)
    (k : WrittenItems layout ts mid rest) : WrittenItems layout ts cs rest := by
  cases k with
  | last hgap ht hclose => exact .last (h.trans hgap) ht hclose
  | more hgap ht hcomma k => exact .more (h.trans hgap) ht hcomma k

theorem Gap.entry {mid : List Char} {e : List Char × Literal} (h : Gap layout.comments cs mid)
    (k : WrittenEntry layout e mid rest) : WrittenEntry layout e cs rest := by
  cases k with
  | mk hgap hkey hcolon hvalue ht => exact .mk (h.trans hgap) hkey hcolon hvalue ht

theorem Gap.entries {mid : List Char} {es : List (List Char × Literal)}
    (h : Gap layout.comments cs mid) (k : WrittenEntries layout es mid rest) :
    WrittenEntries layout es cs rest := by
  cases k with
  | last he hclose => exact .last (h.entry he) hclose
  | more he hcomma k => exact .more (h.entry he) hcomma k

def Opens (c : Char) : Prop := c.isDigit = true ∨ c ∈ ['n', 't', 'f', '\x22', '[', '{', '-']

theorem Written.exists_opens (h : Written layout t cs rest) :
    ∃ c tail, cs = c :: tail ∧ Opens c := by
  cases h with
  | number h =>
    cases h with
    | unsigned h =>
      obtain ⟨c, tail, rfl, hdigit⟩ := h.exists_cons
      exact ⟨c, tail ++ rest, rfl, .inl hdigit⟩
    | minus h => exact ⟨_, _, rfl, .inr (by simp)⟩
  | _ => exact ⟨_, _, rfl, .inr (by simp)⟩

theorem Opens.not_blank (h : Opens c) : Text.isBlank c = false := by
  rcases h with h | h
  · simp only [Char.isDigit, Bool.and_eq_true, decide_eq_true_eq] at h
    have hlow : 48 ≤ c.toNat := UInt32.le_iff_toNat_le.1 h.1
    have hhigh : c.toNat ≤ 57 := UInt32.le_iff_toNat_le.1 h.2
    simp only [Text.isBlank, Bool.or_eq_false_iff, Bool.and_eq_false_iff, decide_eq_false_iff_not]
    omega
  · simp only [List.mem_cons, List.not_mem_nil, or_false] at h
    rcases h with rfl | rfl | rfl | rfl | rfl | rfl | rfl <;> rfl

theorem Opens.not_closing (h : Opens c) : c ≠ ']' ∧ c ≠ '}' := by
  constructor <;> rintro rfl <;> simp [Opens] at h

theorem isBlank_of_isSpace (h : isSpace c = true) : Text.isBlank c = true := by
  simp only [isSpace, Bool.or_eq_true, decide_eq_true_eq] at h
  rcases h with ((rfl | rfl) | rfl) | rfl <;> rfl

theorem closesNext_cons_of_not_blank (h : Text.isBlank c = false) (cs : List Char) :
    closesNext (c :: cs) = (c = '}' || c = ']') := by
  rw [closesNext, List.dropWhile_cons_of_neg (by simp [h])]

theorem closesNext_cons_of_isSpace (h : isSpace c = true) (cs : List Char) :
    closesNext (c :: cs) = closesNext cs := by
  rw [closesNext, closesNext, List.dropWhile_cons_of_pos (isBlank_of_isSpace h)]

/-- A bracket that closes next is no part of what stands between two tokens. -/
theorem Gap.closesNext_eq_false (h : Gap comments cs rest) (hr : closesNext rest = false) :
    closesNext cs = false := by
  induction h with
  | done => exact hr
  | space hc _ ih => rw [closesNext_cons_of_isSpace hc, ih hr]
  | _ => rfl

theorem Written.closesNext_eq_false (h : Written layout t cs rest) : closesNext cs = false := by
  obtain ⟨c, tail, rfl, hc⟩ := h.exists_opens
  rw [closesNext_cons_of_not_blank hc.not_blank]
  simp [hc.not_closing]

theorem WrittenItems.closesNext_eq_false {ts : List Literal} (h : WrittenItems layout ts cs rest) :
    closesNext cs = false := by
  cases h with
  | last hgap h => exact hgap.closesNext_eq_false h.closesNext_eq_false
  | more hgap h => exact hgap.closesNext_eq_false h.closesNext_eq_false

theorem WrittenEntry.closesNext_eq_false {e : List Char × Literal}
    (h : WrittenEntry layout e cs rest) :
    closesNext cs = false := by
  cases h with
  | mk hgap => exact hgap.closesNext_eq_false rfl

theorem WrittenEntries.closesNext_eq_false {es : List (List Char × Literal)}
    (h : WrittenEntries layout es cs rest) : closesNext cs = false := by
  cases h with
  | last h => exact h.closesNext_eq_false
  | more h => exact h.closesNext_eq_false

end QualityGate.Json
