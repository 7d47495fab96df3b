import QualityGate.Json

/-!
Reading JSON documents.
-/
namespace QualityGate.Json

def isSpace (c : Char) : Bool := c = ' ' || c = '\n' || c = '\t' || c = '\r'

def skipSpace (cs : List Char) : List Char := cs.dropWhile isSpace

def hexDigit? (c : Char) : Option Nat :=
  if c.isDigit then some (c.toNat - '0'.toNat)
  else if 'a' ≤ c && c ≤ 'f' then some (c.toNat - 'a'.toNat + 10)
  else if 'A' ≤ c && c ≤ 'F' then some (c.toNat - 'A'.toNat + 10)
  else none

/-- The number that four hexadecimal digits denote. -/
def unit? (a b c d : Char) : Option Nat := do
  return (((← hexDigit? a) * 16 + (← hexDigit? b)) * 16 + (← hexDigit? c)) * 16 + (← hexDigit? d)

/-- The character behind a backslash, but for escapes by number. -/
def unescape? : Char → Option Char
  | '\x22' => some '\x22'
  | '\\' => some '\\'
  | '/' => some '/'
  | 'b' => some '\x08'
  | 'f' => some '\x0c'
  | 'n' => some '\n'
  | 'r' => some '\r'
  | 't' => some '\t'
  | _ => none

/-- What a string holds so far and what follows it. -/
abbrev Held := Option (Option (List Char) × List Char)

def Held.cons (c : Char) (h : Held) : Held := h.map fun (value, rest) => (value.map (c :: ·), rest)

/-- The string holds an escape that denotes no character. -/
def Held.spoil (h : Held) : Held := h.map fun (_, rest) => (none, rest)

def isHigh (n : Nat) : Bool := 0xd800 ≤ n && n < 0xdc00

def isLow (n : Nat) : Bool := 0xdc00 ≤ n && n < 0xe000

/-- Reads a string from behind its opening quote. -/
def readString : List Char → Held
  | [] => none
  | '\x22' :: cs => some (some [], cs)
  | '\\' :: 'u' :: a :: b :: c :: d :: cs =>
    match unit? a b c d with
    | none => none
    | some n =>
      if isHigh n then
        match cs with
        | '\\' :: 'u' :: e :: f :: g :: h :: rest =>
          match unit? e f g h with
          | none => none
          | some m =>
            if isLow m then
              Held.cons (Char.ofNat (0x10000 + (n - 0xd800) * 0x400 + (m - 0xdc00)))
                (readString rest)
            else Held.spoil (readString ('\\' :: 'u' :: e :: f :: g :: h :: rest))
        | rest => Held.spoil (readString rest)
      else if isLow n then Held.spoil (readString cs)
      else Held.cons (Char.ofNat n) (readString cs)
  | '\\' :: c :: cs =>
    match unescape? c with
    | some e => Held.cons e (readString cs)
    | none => none
  | c :: cs => if c.toNat < 0x20 then none else Held.cons c (readString cs)

def digits (cs : List Char) : List Char × List Char := cs.span Char.isDigit

/-- One digit or more. -/
def digits1? (cs : List Char) : Option (List Char × List Char) :=
  let (ds, rest) := digits cs
  if ds.isEmpty then none else some (ds, rest)

/-- Digits without needless zeros in front. -/
def whole? : List Char → Option (List Char × List Char)
  | '0' :: cs => if (cs.head?.map Char.isDigit) == some true then none else some (['0'], cs)
  | cs => digits1? cs

def fraction? : List Char → Option (List Char × List Char)
  | '.' :: cs => (digits1? cs).map fun (ds, rest) => ('.' :: ds, rest)
  | cs => some ([], cs)

def exponent? : List Char → Option (List Char × List Char)
  | c :: cs =>
    if c = 'e' || c = 'E' then
      match cs with
      | s :: cs' =>
        if s = '+' || s = '-' then (digits1? cs').map fun (ds, rest) => (c :: s :: ds, rest)
        else (digits1? cs).map fun (ds, rest) => (c :: ds, rest)
      | [] => none
    else some ([], c :: cs)
  | [] => some ([], [])

def readNumber (cs : List Char) : Option (List Char × List Char) := do
  let (sign, cs) := match cs with
    | '-' :: cs => (['-'], cs)
    | cs => ([], cs)
  let (whole, cs) ← whole? cs
  let (fraction, cs) ← fraction? cs
  let (exponent, cs) ← exponent? cs
  return (sign ++ whole ++ fraction ++ exponent, cs)

mutual
/-- Reads one value from the front of a text, blanks before it skipped. -/
def readValue : Nat → List Char → Option (Json × List Char)
  | 0, _ => none
  | fuel + 1, cs =>
    match skipSpace cs with
    | 'n' :: 'u' :: 'l' :: 'l' :: rest => some (.null, rest)
    | 't' :: 'r' :: 'u' :: 'e' :: rest => some (.boolean true, rest)
    | 'f' :: 'a' :: 'l' :: 's' :: 'e' :: rest => some (.boolean false, rest)
    | '\x22' :: rest => (readString rest).map fun (value, rest) =>
      (.string (value.map String.ofList), rest)
    | '[' :: rest =>
      match skipSpace rest with
      | ']' :: rest => some (.array [], rest)
      | rest => (readItems fuel rest).map fun (items, rest) => (.array items, rest)
    | '{' :: rest =>
      match skipSpace rest with
      | '}' :: rest => some (.object [], rest)
      | rest => (readEntries fuel rest).map fun (entries, rest) => (.object entries, rest)
    | rest => (readNumber rest).map fun (ds, rest) => (.number ds, rest)

def readItems : Nat → List Char → Option (List Json × List Char)
  | 0, _ => none
  | fuel + 1, cs => do
    let (item, rest) ← readValue fuel cs
    match skipSpace rest with
    | ',' :: rest => (readItems fuel rest).map fun (items, rest) => (item :: items, rest)
    | ']' :: rest => some ([item], rest)
    | _ => none

def readEntries : Nat → List Char → Option (List (Option String × Json) × List Char)
  | 0, _ => none
  | fuel + 1, cs =>
    match skipSpace cs with
    | '\x22' :: rest => do
      let (key, rest) ← readString rest
      match skipSpace rest with
      | ':' :: rest =>
        let (value, rest) ← readValue fuel rest
        let entry := (key.map String.ofList, value)
        match skipSpace rest with
        | ',' :: rest => (readEntries fuel rest).map fun (entries, rest) => (entry :: entries, rest)
        | '}' :: rest => some ([entry], rest)
        | _ => none
      | _ => none
    | _ => none
end

def read? (cs : List Char) : Option Json :=
  match readValue (2 * cs.length + 2) cs with
  | some (value, rest) => if (skipSpace rest).isEmpty then some value else none
  | none => none

end QualityGate.Json
