import QualityGate.Text.Blank

/-!
JSON with comments and trailing commas, brought into strict form.
-/
namespace QualityGate.Json

/-- Where a reader stands: in plain text, in a string, in a comment to the end of the line, or in a
comment in stars, with whether a star came last. -/
inductive CommentMode
  | plain
  | quoted
  | line
  | starred (star : Bool)
  deriving DecidableEq

/-- The text without comments; the end of a line comment stays. -/
def dropComments : CommentMode → List Char → List Char
  | _, [] => []
  | .quoted, '\\' :: c :: cs => '\\' :: c :: dropComments .quoted cs
  | .quoted, c :: cs => c :: dropComments (if c = '\x22' then .plain else .quoted) cs
  | .plain, '/' :: '/' :: cs => dropComments .line cs
  | .plain, '/' :: '*' :: cs => dropComments (.starred false) cs
  | .plain, c :: cs => c :: dropComments (if c = '\x22' then .quoted else .plain) cs
  | .line, c :: cs => if c = '\n' then c :: dropComments .plain cs else dropComments .line cs
  | .starred star, c :: cs =>
    dropComments (if star && c = '/' then .plain else .starred (c = '*')) cs

def closesNext (cs : List Char) : Bool :=
  match cs.dropWhile Text.isBlank with
  | c :: _ => c = '}' || c = ']'
  | [] => false

/-- The text without commas in front of closing brackets. -/
def dropCommas : (quoted : Bool) → List Char → List Char
  | _, [] => []
  | true, '\\' :: c :: cs => '\\' :: c :: dropCommas true cs
  | true, c :: cs => c :: dropCommas (c != '\x22') cs
  | false, c :: cs =>
    if c = ',' && closesNext cs then dropCommas false cs else c :: dropCommas (c = '\x22') cs

/-- The strict form of a document with comments and trailing commas. -/
def strip (cs : List Char) : List Char := dropCommas false (dropComments .plain cs)

end QualityGate.Json
