/-!
Patterns for relative paths: `?` and `*` stay inside a name, `**` crosses folders, brackets list
bytes and braces list alternatives. Matching is by bytes.
-/
namespace QualityGate.Glob

inductive Item
  | byte (b : UInt8)
  /-- Any byte of a name. -/
  | any
  /-- Any bytes of a name. -/
  | star
  /-- No folder or any folders in front. -/
  | foldersBefore
  /-- A slash and anything behind it. -/
  | everythingBelow
  /-- A slash, with any folders in between. -/
  | foldersBetween
  | oneOf (negated : Bool) (ranges : List (UInt8 × UInt8))
  | either (branches : List (List Item))
  deriving Inhabited

def slash : UInt8 := 47

/-- Whether some end part that is reached over bytes satisfying `p` satisfies `k`. -/
def anyRest (p : UInt8 → Bool) (k : List UInt8 → Bool) : List UInt8 → Bool
  | [] => k []
  | b :: bs => k (b :: bs) || (p b && anyRest p k bs)

/-- Whether some end part that follows a slash satisfies `k`. -/
def anyBelow (k : List UInt8 → Bool) : List UInt8 → Bool
  | [] => false
  | b :: bs => (b = slash && k bs) || anyBelow k bs

mutual
/-- Whether a front part of the text matches and `k` holds of the rest. -/
def Item.run (k : List UInt8 → Bool) : Item → List UInt8 → Bool
  | .byte b, c :: cs => b = c && k cs
  | .any, c :: cs => c != slash && k cs
  | .star, cs => anyRest (· != slash) k cs
  | .foldersBefore, cs => k cs || anyBelow k cs
  | .everythingBelow, c :: cs => c = slash && anyRest (fun _ => true) k cs
  | .foldersBetween, c :: cs => c = slash && (k cs || anyBelow k cs)
  | .oneOf negated ranges, c :: cs =>
    ((ranges.any fun r => r.1 ≤ c && c ≤ r.2) != negated) && k cs
  | .either branches, cs => runBranches k branches cs
  | _, [] => false

def run (k : List UInt8 → Bool) : List Item → List UInt8 → Bool
  | [], cs => k cs
  | i :: is, cs => Item.run (run k is) i cs

def runBranches (k : List UInt8 → Bool) : List (List Item) → List UInt8 → Bool
  | [], _ => false
  | branch :: branches, cs => run k branch cs || runBranches k branches cs
end

/-- Whether a pattern matches a whole path. A pattern of nothing but `**` matches all. -/
def accepts (pattern : List Item) (path : String) : Bool :=
  match pattern with
  | [.foldersBefore] => true
  | _ => run List.isEmpty pattern path.toUTF8.toList

/-- The bytes of a character that a bracket may list. -/
def rangeByte (c : Char) : List UInt8 := (String.ofList [c]).toUTF8.toList

/-- Reads a bracket from behind its opening. `ranges` holds the ranges so far, the last one first,
and `open?` tells whether a hyphen waits for the end of a range. -/
def readBracket (first open? : Bool) (ranges : List (Char × Char)) :
    List Char → Option (List (Char × Char) × List Char)
  | [] => none
  | c :: cs =>
    if c = ']' && !first then
      some (if open? then ('-', '-') :: ranges else ranges, cs)
    else if c = '-' && !first && !open? then readBracket false true ranges cs
    else if open? then
      match ranges with
      | (low, _) :: rest => if c < low then none else readBracket false false ((low, c) :: rest) cs
      | [] => none
    else readBracket false false ((c, c) :: ranges) cs

def byteRanges (r : Char × Char) : List (UInt8 × UInt8) :=
  match rangeByte r.1, rangeByte r.2 with
  | [a], [b] => [(a, b)]
  | as, bs => if r.1 = r.2 then as.map fun a => (a, a) else (as ++ bs).map fun a => (a, a)

def bracket (negated : Bool) (ranges : List (Char × Char)) : Item :=
  .oneOf negated (ranges.flatMap byteRanges)

/-- One open pair of braces: the finished branches and the current one, all in reverse. -/
structure Level where
  done : List (List Item)
  current : List Item

def Level.push (l : Level) (i : Item) : Level := { l with current := i :: l.current }

def Level.items (l : Level) : List Item := l.current.reverse

/-- The alternatives of a closed pair of braces, empty ones left out. -/
def Level.either? (l : Level) : Option Item :=
  match (((l.current :: l.done).map List.reverse).filter (!·.isEmpty)).reverse with
  | [] => none
  | branches => some (.either branches)

/-- What a second star stands for, and what follows it; `prev` is the character in front of the
stars. -/
def doubleStar (prev : Option Char) (inBraces : Bool) (l : Level) (cs : List Char) :
    Level × List Char :=
  let plain := ((l.push .star).push .star, cs)
  if l.current.isEmpty then
    match cs with
    | [] => (l.push .foldersBefore, [])
    | '/' :: cs => (l.push .foldersBefore, cs)
    | _ => plain
  else if prev != some '/' && !(inBraces && (prev == some ',' || prev == some '{')) then plain
  else
    let replace (suffix : Bool) : Level :=
      match l.current with
      | .foldersBefore :: _ | .everythingBelow :: _ => l
      | _ :: rest =>
        { l with current := (if suffix then .everythingBelow else .foldersBetween) :: rest }
      | [] => l
    match cs with
    | [] => (replace true, [])
    | '/' :: cs => (replace false, cs)
    | c :: _ => if inBraces && (c = ',' || c = '}') then (replace true, cs) else plain

/-- Reads a pattern. `outer` are the levels around the current one; each character is read once, so
the fuel is the length of the text. -/
def parseFrom : Nat → Option Char → List Level → Level → List Char → Option (List Item)
  | 0, _, outer, l, _ => if outer.isEmpty then some l.items else none
  | _ + 1, _, outer, l, [] => if outer.isEmpty then some l.items else none
  | fuel + 1, prev, outer, l, c :: cs =>
    match c with
    | '?' => parseFrom fuel (some c) outer (l.push .any) cs
    | '*' =>
      match cs with
      | '*' :: rest =>
        let (l, rest') := doubleStar prev (!outer.isEmpty) l rest
        parseFrom fuel (some (if rest'.length < rest.length then '/' else '*')) outer l rest'
      | _ => parseFrom fuel (some c) outer (l.push .star) cs
    | '[' =>
      let negated := cs.head? == some '!' || cs.head? == some '^'
      match readBracket true false [] (if negated then cs.drop 1 else cs) with
      | some (ranges, rest) =>
        parseFrom fuel (some ']') outer (l.push (bracket negated ranges)) rest
      | none => none
    | '{' => parseFrom fuel (some c) (l :: outer) ⟨[], []⟩ cs
    | '}' =>
      match outer with
      | [] => none
      | o :: outer =>
        parseFrom fuel (some c) outer (match l.either? with | some i => o.push i | none => o) cs
    | ',' =>
      if outer.isEmpty then parseFrom fuel (some c) outer (l.push (.byte 44)) cs
      else parseFrom fuel (some c) outer ⟨l.current :: l.done, []⟩ cs
    | '\\' =>
      match cs with
      | [] => none
      | e :: rest =>
        parseFrom fuel (some e) outer (⟨l.done, (rangeByte e).reverse.map .byte ++ l.current⟩) rest
    | c => parseFrom fuel (some c) outer ⟨l.done, (rangeByte c).reverse.map .byte ++ l.current⟩ cs

def parse? (cs : List Char) : Option (List Item) := parseFrom cs.length none [] ⟨[], []⟩ cs

end QualityGate.Glob
