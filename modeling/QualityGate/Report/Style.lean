/-!
Text in color for terminals.
-/
namespace QualityGate

inductive Color16
  | red | green | yellow | cyan
  deriving DecidableEq, Repr

structure Style where
  bold : Bool
  color : Option Color16
  deriving DecidableEq, Repr

namespace Style

def plain (c : Color16) : Style := ⟨false, some c⟩

def strong (c : Color16) : Style := ⟨true, some c⟩

def codes (s : Style) : List String :=
  (if s.bold then ["1"] else [])
    ++ (match s.color with
      | some .red => ["31"]
      | some .green => ["32"]
      | some .yellow => ["33"]
      | some .cyan => ["36"]
      | none => [])

def paint (colors : Bool) (s : Style) (text : String) : String :=
  if colors then "\x1b[" ++ ";".intercalate s.codes ++ "m" ++ text ++ "\x1b[0m" else text

end Style
end QualityGate
