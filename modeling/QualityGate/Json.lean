/-!
JSON documents.
-/
namespace QualityGate

inductive Json
  | null
  | boolean (value : Bool)
  /-- A number as it is written. -/
  | number (digits : List Char)
  /-- A string; nothing where its escapes stand for half a character. -/
  | string (value : Option String)
  | array (items : List Json)
  /-- An object with its entries as they are written. A key may come twice. -/
  | object (entries : List (Option String × Json))
  deriving Inhabited

namespace Json

def text (s : String) : Json := .string (some s)

def nat (n : Nat) : Json := .number (toString n).toList

/-- An object with distinct keys. -/
def record (entries : List (String × Json)) : Json :=
  .object (entries.map fun e => (some e.1, e.2))

def text? : Json → Option String
  | .string value => value
  | _ => none

def isNull : Json → Bool
  | .null => true
  | _ => false

end Json
end QualityGate
