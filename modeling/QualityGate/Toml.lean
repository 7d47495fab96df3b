/-!
Values of TOML documents, as far as settings are made of them.
-/
namespace QualityGate.Toml

inductive Value
  | string (s : String)
  | integer (n : Int)
  | fraction
  | boolean (b : Bool)
  | moment
  | array (items : List Value)
  | table (entries : List (String × Value))
  deriving Inhabited

abbrev Table := List (String × Value)

def Table.get? (t : Table) (key : String) : Option Value := (t.find? (·.1 == key)).map (·.2)

end QualityGate.Toml
