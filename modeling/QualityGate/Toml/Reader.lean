import QualityGate.Toml.Build
import QualityGate.Toml.Scan

/-!
Reading TOML documents.
-/
namespace QualityGate.Toml

mutual
/-- Reads a value. Every step reads a character or more, or goes from a value to its kind, so twice
the length of the text is fuel enough. -/
def readValue : Nat → List Char → Option (Value × List Char)
  | 0, _ => none
  | fuel + 1, cs =>
    match cs with
    | '[' :: rest => (readItems fuel rest).map fun (vs, rest) => (.array vs, rest)
    | '{' :: rest =>
      match skipSpace rest with
      | '}' :: rest => some (.table [], rest)
      | rest => (readInline fuel [] rest).map fun (ps, rest) => (.table (Part.toEntries ps), rest)
    | 't' :: 'r' :: 'u' :: 'e' :: rest => some (.boolean true, rest)
    | 'f' :: 'a' :: 'l' :: 's' :: 'e' :: rest => some (.boolean false, rest)
    | c :: rest =>
      if c = '\x22' || c = '\x27' then
        (readString (c :: rest)).map fun (s, rest) => (.string (String.ofList s), rest)
      else readNumber (c :: rest)
    | [] => none

def readItems : Nat → List Char → Option (List Value × List Char)
  | 0, _ => none
  | fuel + 1, cs => do
    match ← skipLines false cs with
    | ']' :: rest => some ([], rest)
    | cs =>
      let (v, rest) ← readValue fuel cs
      match ← skipLines false rest with
      | ',' :: rest => (readItems fuel rest).map fun (vs, rest) => (v :: vs, rest)
      | ']' :: rest => some ([v], rest)
      | _ => none

def readInline : Nat → Parts → List Char → Option (Parts × List Char)
  | 0, _, _ => none
  | fuel + 1, ps, cs => do
    match ← readKey cs with
    | (key, '=' :: rest) =>
      let (v, rest) ← readValue fuel (skipSpace rest)
      let ps ← Part.assign key v ps
      match skipSpace rest with
      | ',' :: rest => readInline fuel ps rest
      | '}' :: rest => some (ps, rest)
      | _ => none
    | _ => none
end

/-- Reads the key of a header from behind its opening brackets, up to the end of the line. -/
def readHeader (double : Bool) (cs : List Char) : Option (List String × List Char) := do
  match ← readKey cs with
  | (key, ']' :: rest) =>
    if double then
      match rest with
      | ']' :: rest => (endLine rest).map fun rest => (key, rest)
      | _ => none
    else (endLine rest).map fun rest => (key, rest)
  | _ => none

/-- Reads the lines of a document. `header` is the key of the table that assignments go to. Each
line is shorter than the text before it, so the fuel is its length. -/
def readDocument : Nat → List String → Parts → List Char → Option Parts
  | 0, _, ps, _ => some ps
  | fuel + 1, header, ps, cs => do
    match skipSpace cs with
    | [] => some ps
    | '\n' :: rest => readDocument fuel header ps rest
    | '\r' :: '\n' :: rest => readDocument fuel header ps rest
    | '#' :: rest => readDocument fuel header ps (← skipComment rest)
    | '[' :: '[' :: rest =>
      let (key, rest) ← readHeader true rest
      readDocument fuel key (← Part.openItem key ps) rest
    | '[' :: rest =>
      let (key, rest) ← readHeader false rest
      readDocument fuel key (← Part.openTable key ps) rest
    | cs =>
      match ← readKey cs with
      | (key, '=' :: rest) =>
        let (v, rest) ← readValue (2 * rest.length + 2) (skipSpace rest)
        readDocument fuel header (← Part.change false (fun _ ps =>
          Part.assign key v ps) header false ps)
          (← endLine rest)
      | _ => none

def read? (text : String) : Option Table :=
  let cs := text.toList
  let cs := if cs.head? == some '\ufeff' then cs.drop 1 else cs
  (readDocument (cs.length + 1) [] [] cs).map Part.toEntries

end QualityGate.Toml
