import QualityGate.Toml

/-!
Building tables from assignments and headers. A table may be opened by one header only, and keys
with points add to tables that such keys made.
-/
namespace QualityGate.Toml

inductive Part
  | value (v : Value)
  /-- A table. It is implied until a header opens it, and dotted if keys with points made it. -/
  | table (implied dotted : Bool) (parts : List (String × Part))
  /-- A list of tables, the current one first. -/
  | tables (items : List (List (String × Part)))
  deriving Inhabited

abbrev Parts := List (String × Part)

namespace Part

def find? (ps : Parts) (key : String) : Option Part := (ps.find? (·.1 == key)).map (·.2)

def set (key : String) (p : Part) : Parts → Parts
  | [] => [(key, p)]
  | (k, q) :: rest => if k = key then (k, p) :: rest else (k, q) :: set key p rest

/-- Changes the table at the end of a path, making the tables on the way. `dotted` tells whether the
path is that of a key; `isDotted` is what the change is told of the table. -/
def change (dotted : Bool) (f : Bool → Parts → Option Parts) :
    List String → Bool → Parts → Option Parts
  | [], isDotted, ps => f isDotted ps
  | key :: path, _, ps =>
    match find? ps key with
    | none => (change dotted f path dotted []).map fun inner =>
      set key (.table true dotted inner) ps
    | some (.value _) => none
    | some (.tables []) => none
    | some (.tables (last :: rest)) =>
      (change dotted f path false last).map fun inner => set key (.tables (inner :: rest)) ps
    | some (.table implied d inner) =>
      if dotted && !implied then none
      else (change dotted f path d inner).map fun inner => set key (.table implied d inner) ps

/-- Assigns a value to a key in a table. -/
def assign (key : List String) (v : Value) (ps : Parts) : Option Parts :=
  match key.getLast? with
  | none => none
  | some name =>
    change true (fun isDotted ps =>
      if isDotted == key.dropLast.isEmpty then none
      else if (find? ps name).isSome then none
      else some (ps ++ [(name, .value v)])) key.dropLast false ps

/-- Opens a table by its header. -/
def openTable (key : List String) (ps : Parts) : Option Parts :=
  match key.getLast? with
  | none => none
  | some name =>
    change false (fun _ ps =>
      match find? ps name with
      | none => some (ps ++ [(name, .table false false [])])
      | some (.table true false inner) => some (set name (.table false false inner) ps)
      | some _ => none) key.dropLast false ps

def openItem (key : List String) (ps : Parts) : Option Parts :=
  match key.getLast? with
  | none => none
  | some name =>
    change false (fun _ ps =>
      match find? ps name with
      | none => some (ps ++ [(name, .tables [[]])])
      | some (.tables items) => some (set name (.tables ([] :: items)) ps)
      | some _ => none) key.dropLast false ps

mutual
def toValue : Part → Value
  | .value v => v
  | .table _ _ ps => .table (toEntries ps)
  | .tables items => .array (toItems items).reverse

def toEntries : List (String × Part) → Table
  | [] => []
  | (key, p) :: rest => (key, toValue p) :: toEntries rest

def toItems : List (List (String × Part)) → List Value
  | [] => []
  | ps :: rest => .table (toEntries ps) :: toItems rest
end

end Part
end QualityGate.Toml
