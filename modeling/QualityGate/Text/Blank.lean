/-!
Blanks of all scripts, and the words between them.
-/
namespace QualityGate.Text

def isBlank (c : Char) : Bool :=
  let n := c.toNat
  (0x09 ≤ n && n ≤ 0x0d) || n = 0x20 || n = 0x85 || n = 0xa0 || n = 0x1680
    || (0x2000 ≤ n && n ≤ 0x200a) || n = 0x2028 || n = 0x2029 || n = 0x202f ||
      n = 0x205f || n = 0x3000

def trim (cs : List Char) : List Char :=
  ((cs.dropWhile isBlank).reverse.dropWhile isBlank).reverse

/-- The runs of other characters between blanks. -/
def words (cs : List Char) : List (List Char) :=
  go [] cs
where
  /-- `held` is the word before the rest of the text, its last character first. -/
  go (held : List Char) : List Char → List (List Char)
    | [] => if held.isEmpty then [] else [held.reverse]
    | c :: cs =>
      if isBlank c then
        if held.isEmpty then go [] cs else held.reverse :: go [] cs
      else go (c :: held) cs

end QualityGate.Text
