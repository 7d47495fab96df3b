/-!
Character classes of the scanner: blanks, line ends and the characters of names.
-/
namespace QualityGate.Syntax

def isLineEnd (c : Char) : Bool :=
  c = '\n' || c = '\r' || c = '\u2028' || c = '\u2029'

def isSpace (c : Char) : Bool :=
  let n := c.toNat
  (0x09 ≤ n && n ≤ 0x0d) || n = 0x20 || n = 0x85 || n = 0xa0 || n = 0x1680
    || (0x2000 ≤ n && n ≤ 0x200b) || n = 0x2028 || n = 0x2029 || n = 0x202f || n = 0x205f
    || n = 0x2060 || n = 0x3000 || n = 0xfeff

/-- Printable characters of the first block that end a name. -/
def nameBreaks : List Char :=
  ":;\x60\"'@#.,|^&<=>+-*/\\%?!~()[]\x7b\x7d".toList

def isNameStart (c : Char) : Bool :=
  0x20 ≤ c.toNat && !isSpace c && !c.isDigit && !nameBreaks.contains c

def isNamePart (c : Char) : Bool := isNameStart c || c.isDigit

def isHexDigit (c : Char) : Bool :=
  c.isDigit || ('a' ≤ c && c ≤ 'f') || ('A' ≤ c && c ≤ 'F')

end QualityGate.Syntax
