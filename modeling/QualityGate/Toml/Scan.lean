import QualityGate.Toml

/-!
The smallest parts of TOML documents: blanks, comments, strings, keys, numbers and moments. A reader
returns what it read and the rest of the text.
-/
namespace QualityGate.Toml

def isSpace (c : Char) : Bool := c = ' ' || c = '\t'

def skipSpace (cs : List Char) : List Char := cs.dropWhile isSpace

/-- A character that may stand in a comment, and in a string where it is no mark. -/
def isPlain (c : Char) : Bool := c = '\t' || (0x20 ≤ c.toNat && c.toNat ≤ 0x7e) || 0x80 ≤ c.toNat

def skipComment : List Char → Option (List Char)
  | [] => some []
  | '\n' :: cs => some cs
  | '\r' :: '\n' :: cs => some cs
  | c :: cs => if isPlain c then skipComment cs else none

def endLine (cs : List Char) : Option (List Char) :=
  match skipSpace cs with
  | [] => some []
  | '\n' :: cs => some cs
  | '\r' :: '\n' :: cs => some cs
  | '#' :: cs => skipComment cs
  | _ => none

/-- Skips blanks, line ends and comments; `comment` tells whether one is open. -/
def skipLines : (comment : Bool) → List Char → Option (List Char)
  | _, [] => some []
  | _, '\n' :: cs => skipLines false cs
  | _, '\r' :: '\n' :: cs => skipLines false cs
  | true, c :: cs => if isPlain c then skipLines true cs else none
  | false, c :: cs =>
    if c = '#' then skipLines true cs
    else if isSpace c then skipLines false cs
    else some (c :: cs)

def hexDigit? (c : Char) : Option Nat :=
  if c.isDigit then some (c.toNat - '0'.toNat)
  else if 'a' ≤ c && c ≤ 'f' then some (c.toNat - 'a'.toNat + 10)
  else if 'A' ≤ c && c ≤ 'F' then some (c.toNat - 'A'.toNat + 10)
  else none

def scalar? (ds : List Char) : Option Char := do
  let n ← ds.foldlM (fun n d => (hexDigit? d).map (16 * n + ·)) 0
  if n < 0xd800 || (0xe000 ≤ n && n < 0x110000) then some (Char.ofNat n) else none

def escaped? : Char → Option Char
  | 'b' => some '\x08'
  | 't' => some '\t'
  | 'n' => some '\n'
  | 'f' => some '\x0c'
  | 'r' => some '\r'
  | '\x22' => some '\x22'
  | '\\' => some '\\'
  | _ => none

def hold (c : Char) (r : Option (List Char × List Char)) : Option (List Char × List Char) :=
  r.map fun (s, rest) => (c :: s, rest)

def readQuoted : List Char → Option (List Char × List Char)
  | [] => none
  | '\x22' :: cs => some ([], cs)
  | '\\' :: 'u' :: a :: b :: c :: d :: cs => do hold (← scalar? [a, b, c, d]) (readQuoted cs)
  | '\\' :: 'U' :: a :: b :: c :: d :: e :: f :: g :: h :: cs => do
    hold (← scalar? [a, b, c, d, e, f, g, h]) (readQuoted cs)
  | '\\' :: c :: cs => do hold (← escaped? c) (readQuoted cs)
  | c :: cs => if isPlain c then hold c (readQuoted cs) else none

def readLiteral : List Char → Option (List Char × List Char)
  | [] => none
  | '\x27' :: cs => some ([], cs)
  | c :: cs => if isPlain c then hold c (readLiteral cs) else none

/-- The quotes of a string that ends here: of up to five, the last three close it. -/
def closing? (quote : Char) (cs : List Char) : Option (List Char × List Char) :=
  let n := min 5 (cs.takeWhile (· = quote)).length
  if n < 3 then none else some (List.replicate (n - 3) quote, cs.drop n)

def isLineBlank (c : Char) : Bool := isSpace c || c = '\n' || c = '\r'

/-- Whether nothing but blanks stands before the end of the line. -/
def endsLine (cs : List Char) : Bool :=
  match skipSpace cs with
  | '\n' :: _ => true
  | '\r' :: '\n' :: _ => true
  | _ => false

/-- Reads a string of several lines. While `folding`, the blanks behind a backslash at the end of a
line are skipped. -/
def readLines : (folding : Bool) → List Char → Option (List Char × List Char)
  | _, [] => none
  | folding, '\r' :: '\n' :: cs =>
    if folding then readLines true cs else hold '\n' (readLines false cs)
  | folding, '\n' :: cs => if folding then readLines true cs else hold '\n' (readLines false cs)
  | _, '\\' :: 'u' :: a :: b :: c :: d :: cs =>
    do hold (← scalar? [a, b, c, d]) (readLines false cs)
  | _, '\\' :: 'U' :: a :: b :: c :: d :: e :: f :: g :: h :: cs => do
    hold (← scalar? [a, b, c, d, e, f, g, h]) (readLines false cs)
  | _, '\\' :: c :: cs =>
    match escaped? c with
    | some e => hold e (readLines false cs)
    | none => if isLineBlank c && endsLine (c :: cs) then readLines true (c :: cs) else none
  | folding, c :: cs =>
    if folding && isSpace c then readLines true cs
    else if c = '\x22' then
      match closing? '\x22' (c :: cs) with
      | some r => some r
      | none => hold c (readLines false cs)
    else if isPlain c then hold c (readLines false cs)
    else none

def readRawLines : List Char → Option (List Char × List Char)
  | [] => none
  | '\r' :: '\n' :: cs => hold '\n' (readRawLines cs)
  | c :: cs =>
    if c = '\x27' then
      match closing? '\x27' (c :: cs) with
      | some r => some r
      | none => hold c (readRawLines cs)
    else if isPlain c || c = '\n' then hold c (readRawLines cs)
    else none

def dropLineEnd : List Char → List Char
  | '\n' :: cs => cs
  | '\r' :: '\n' :: cs => cs
  | cs => cs

def readString : List Char → Option (List Char × List Char)
  | '\x22' :: '\x22' :: '\x22' :: cs => readLines false (dropLineEnd cs)
  | '\x22' :: cs => readQuoted cs
  | '\x27' :: '\x27' :: '\x27' :: cs => readRawLines (dropLineEnd cs)
  | '\x27' :: cs => readLiteral cs
  | _ => none

def isBareKey (c : Char) : Bool := c.isAlphanum || c = '_' || c = '-'

/-- Reads one part of a key. -/
def readKeyPart : List Char → Option (String × List Char)
  | '\x22' :: cs => (readQuoted cs).map fun (s, rest) => (String.ofList s, rest)
  | '\x27' :: cs => (readLiteral cs).map fun (s, rest) => (String.ofList s, rest)
  | cs =>
    let (s, rest) := cs.span isBareKey
    if s.isEmpty then none else some (String.ofList s, rest)

/-- Reads a key of parts with points between them. Each part is read from a shorter text, so the
fuel is its length. -/
def readKeyFrom : Nat → List Char → Option (List String × List Char)
  | 0, _ => none
  | fuel + 1, cs => do
    let (part, rest) ← readKeyPart (skipSpace cs)
    match skipSpace rest with
    | '.' :: rest => (readKeyFrom fuel rest).map fun (parts, rest) => (part :: parts, rest)
    | rest => some ([part], rest)

def readKey (cs : List Char) : Option (List String × List Char) := readKeyFrom (cs.length + 1) cs

/-- Reads digits of a base, single low lines between them left out. -/
def readDigits (isDigit : Char → Bool) : List Char → Option (List Char × List Char)
  | [] => none
  | c :: cs =>
    if !isDigit c then none
    else match cs with
      | '_' :: d :: rest => if isDigit d then hold c (readDigits isDigit (d :: rest)) else none
      | d :: rest => if isDigit d then hold c (readDigits isDigit (d :: rest)) else some ([c], cs)
      | [] => some ([c], [])

def readWhole : List Char → Option (List Char × List Char)
  | '0' :: cs => some (['0'], cs)
  | cs => readDigits Char.isDigit cs

def readSign : List Char → Bool × List Char
  | '-' :: cs => (true, cs)
  | '+' :: cs => (false, cs)
  | cs => (false, cs)

def valueOf (base : Nat) (ds : List Char) : Nat :=
  ds.foldl (fun n d => base * n + (hexDigit? d).getD 0) 0

def bounded (n : Int) (rest : List Char) : Option (Value × List Char) :=
  if -(Nat.pow 2 63 : Int) ≤ n && n < (Nat.pow 2 63 : Int) then some (.integer n, rest) else none

def readInteger : List Char → Option (Value × List Char)
  | '0' :: 'x' :: cs => do
    let (ds, rest) ← readDigits (fun c => (hexDigit? c).isSome) cs
    bounded (valueOf 16 ds) rest
  | '0' :: 'o' :: cs => do
    let (ds, rest) ← readDigits (fun c => '0' ≤ c && c ≤ '7') cs
    bounded (valueOf 8 ds) rest
  | '0' :: 'b' :: cs => do
    let (ds, rest) ← readDigits (fun c => c = '0' || c = '1') cs
    bounded (valueOf 2 ds) rest
  | cs => do
    let (negative, cs) := readSign cs
    let (ds, rest) ← readWhole cs
    let n : Int := valueOf 10 ds
    bounded (if negative then -n else n) rest

def readExponent : List Char → Option (List Char)
  | c :: cs =>
    if c = 'e' || c = 'E' then (readDigits Char.isDigit (readSign cs).2).map (·.2) else none
  | [] => none

def readFraction (cs : List Char) : Option (Value × List Char) :=
  match (readSign cs).2 with
  | 'i' :: 'n' :: 'f' :: rest => some (.fraction, rest)
  | 'n' :: 'a' :: 'n' :: rest => some (.fraction, rest)
  | cs => do
    let (_, rest) ← readWhole cs
    match rest with
    | '.' :: rest =>
      let (_, rest) ← readDigits Char.isDigit rest
      some (.fraction, (readExponent rest).getD rest)
    | rest => (readExponent rest).map fun rest => (.fraction, rest)

/-- Reads two digits that denote a number from `low` to `high`. -/
def readPair (low high : Nat) : List Char → Option (Nat × List Char)
  | a :: b :: rest =>
    let n := valueOf 10 [a, b]
    if a.isDigit && b.isDigit && low ≤ n && n ≤ high then some (n, rest) else none
  | _ => none

def isLeap (year : Nat) : Bool := year % 4 = 0 && (year % 100 != 0 || year % 400 = 0)

def daysIn (year month : Nat) : Nat :=
  if month = 2 then (if isLeap year then 29 else 28)
  else if [4, 6, 9, 11].contains month then 30 else 31

def readDate : List Char → Option (List Char)
  | a :: b :: c :: d :: '-' :: cs => do
    guard ([a, b, c, d].all Char.isDigit)
    let (month, rest) ← readPair 1 12 cs
    match rest with
    | '-' :: rest => (readPair 1 (daysIn (valueOf 10 [a, b, c, d]) month) rest).map (·.2)
    | _ => none
  | _ => none

def readTime (cs : List Char) : Option (List Char) := do
  let (_, rest) ← readPair 0 23 cs
  match rest with
  | ':' :: rest =>
    let (_, rest) ← readPair 0 59 rest
    match rest with
    | ':' :: rest =>
      let (_, rest) ← readPair 0 60 rest
      match rest with
      | '.' :: rest =>
        if (rest.head?.map Char.isDigit) == some true then some (rest.dropWhile Char.isDigit)
        else none
      | rest => some rest
    | _ => none
  | _ => none

def readOffset : List Char → Option (List Char)
  | 'Z' :: cs => some cs
  | 'z' :: cs => some cs
  | c :: cs =>
    if c = '+' || c = '-' then do
      let (_, rest) ← readPair 0 23 cs
      match rest with
      | ':' :: rest => (readPair 0 59 rest).map (·.2)
      | _ => none
    else none
  | [] => none

def readMoment (cs : List Char) : Option (Value × List Char) :=
  match readDate cs with
  | some (c :: rest) =>
    if c = 'T' || c = 't' || c = ' ' then
      match readTime rest with
      | some rest => some (.moment, (readOffset rest).getD rest)
      | none => some (.moment, c :: rest)
    else some (.moment, c :: rest)
  | some [] => some (.moment, [])
  | none => (readTime cs).map fun rest => (.moment, rest)

def readNumber (cs : List Char) : Option (Value × List Char) :=
  (readMoment cs) <|> (readFraction cs) <|> (readInteger cs)

end QualityGate.Toml
