import QualityGate.Json

/-!
Writing JSON documents, indented by two spaces.
-/
namespace QualityGate.Json

def hexLetter (n : Nat) : Char :=
  if n < 10 then Char.ofNat ('0'.toNat + n) else Char.ofNat ('a'.toNat + n - 10)

def escape (c : Char) : List Char :=
  match c with
  | '\x22' => ['\\', '\x22']
  | '\\' => ['\\', '\\']
  | '\n' => ['\\', 'n']
  | '\r' => ['\\', 'r']
  | '\t' => ['\\', 't']
  | '\x08' => ['\\', 'b']
  | '\x0c' => ['\\', 'f']
  | c =>
    if c.toNat < 0x20 then ['\\', 'u', '0', '0', hexLetter (c.toNat / 16), hexLetter (c.toNat % 16)]
    else [c]

def quote (s : String) : List Char := '\x22' :: s.toList.flatMap escape ++ ['\x22']

def newLine (depth : Nat) : List Char := '\n' :: List.replicate (2 * depth) ' '

mutual
def write (depth : Nat) : Json → List Char
  | .null => ['n', 'u', 'l', 'l']
  | .boolean true => ['t', 'r', 'u', 'e']
  | .boolean false => ['f', 'a', 'l', 's', 'e']
  | .number ds => ds
  | .string value => quote (value.getD "")
  | .array [] => ['[', ']']
  | .array (v :: vs) =>
    '[' :: newLine (depth + 1) ++ write (depth + 1) v ++ writeItems (depth + 1) vs
      ++ newLine depth ++ [']']
  | .object [] => ['{', '}']
  | .object (e :: es) =>
    '{' :: newLine (depth + 1) ++ writeEntry (depth + 1) e ++ writeEntries (depth + 1) es
      ++ newLine depth ++ ['}']

def writeItems (depth : Nat) : List Json → List Char
  | [] => []
  | v :: vs => ',' :: newLine depth ++ write depth v ++ writeItems depth vs

def writeEntry (depth : Nat) : Option String × Json → List Char
  | (key, value) => quote (key.getD "") ++ [':', ' '] ++ write depth value

def writeEntries (depth : Nat) : List (Option String × Json) → List Char
  | [] => []
  | e :: es => ',' :: newLine depth ++ writeEntry depth e ++ writeEntries depth es
end

def render (v : Json) : String := String.ofList (write 0 v)

end QualityGate.Json
