import QualityGate.Json
import QualityGate.Text.Digit

/-!
Records in JSON documents: objects with known keys, each of which may come once. Other entries are
passed over.
-/
namespace QualityGate.Json

abbrev Entries := List (Option String × Json)

/-- Whether no key of an object lacks its text. -/
def haveKeys (entries : Entries) : Bool := entries.all fun e => e.1.isSome

mutual
/-- Whether no key and no string in a document lacks its text. -/
def haveText : Json → Bool
  | .string value => value.isSome
  | .array items => haveTextAll items
  | .object entries => haveTextEntries entries
  | _ => true

def haveTextAll : List Json → Bool
  | [] => true
  | v :: vs => v.haveText && haveTextAll vs

def haveTextEntries : List (Option String × Json) → Bool
  | [] => true
  | (key, v) :: rest => key.isSome && v.haveText && haveTextEntries rest
end

def present? (v : Json) : Option Json := if v.isNull then none else some v

/-- The value of a key that may be left out, which is the same as `null`; nothing if the key comes
twice. -/
def field? (entries : Entries) (key : String) : Option (Option Json) :=
  match (entries.filter fun e => e.1 == some key).map (·.2) with
  | [] => some none
  | [v] => some v.present?
  | _ => none

def boolean? : Json → Option Bool
  | .boolean b => some b
  | _ => none

/-- A whole number of at most 64 bits. -/
def nat? : Json → Option Nat
  | .number ds => (Text.number? ds).filter (· < Nat.pow 2 64)
  | _ => none

/-- Reads what an optional value holds. -/
def reading {α : Type} (read : Json → Option α) : Option Json → Option (Option α)
  | none => some none
  | some v => (read v).map some

end QualityGate.Json
