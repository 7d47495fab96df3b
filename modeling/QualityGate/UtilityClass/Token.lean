import QualityGate.Text.Blank

/-!
Utility classes such as `sm:hover:-mt-4` or `w-[123px]`: variants, sign, family and value.
-/
namespace QualityGate.UtilityClass

structure Token where
  raw : String
  variants : List String
  negative : Bool
  utility : String
  value : String
  /-- The value is free text in brackets. -/
  arbitrary : Bool
  deriving DecidableEq, Repr

namespace Token

def base (t : Token) : String :=
  if t.value.isEmpty then t.utility
  else if t.arbitrary then t.utility ++ "-[" ++ t.value ++ "]"
  else t.utility ++ "-" ++ t.value

/-- The leading names of `table`, each closed by a colon, and what follows them; `held` are the
characters since the last colon, the last one first. -/
def takeVariants (table : List String) (held : List Char) : List Char → List String × List Char
  | [] => ([], held.reverse)
  | c :: cs =>
    if c = ':' then
      let name := String.ofList held.reverse
      if table.contains name then
        let found := takeVariants table [] cs
        (name :: found.1, found.2)
      else ([], held.reverse ++ c :: cs)
    else takeVariants table (c :: held) cs

def isUtilityCharacter (c : Char) : Bool := c.isLower || c.isDigit || c = '-'

/-- `u-[v]` as `u` and `v`, neither of them empty and `v` on one line. -/
def bracketed? (cs : List Char) : Option (List Char × List Char) :=
  let family := cs.takeWhile (· != '[')
  match cs.drop family.length with
  | [] => none
  | _ :: rest =>
    if family.all isUtilityCharacter && family.getLast? == some '-' && 2 ≤ family.length
        && rest.getLast? == some ']' && 2 ≤ rest.length && !rest.contains '\n' then
      some (family.dropLast, rest.dropLast)
    else none

/-- The text before and behind the last hyphen; without one the second part is empty. -/
def splitValue (cs : List Char) : List Char × List Char :=
  let value := (cs.reverse.takeWhile (· != '-')).reverse
  if value.length = cs.length then (cs, []) else (cs.take (cs.length - value.length - 1), value)

/-- The class that the text of a word denotes. -/
def ofWord (table : List String) (word : List Char) : Token :=
  let split := takeVariants table [] word
  let negative := split.2.head? == some '-'
  let rest := if negative then split.2.drop 1 else split.2
  match bracketed? rest with
  | some (utility, value) =>
    ⟨String.ofList word, split.1, negative, String.ofList utility, String.ofList value, true⟩
  | none =>
    let parts := splitValue rest
    ⟨String.ofList word, split.1, negative, String.ofList parts.1, String.ofList parts.2, false⟩

def ofString? (table : List String) (text : String) : Option Token :=
  let word := Text.trim text.toList
  if word.isEmpty then none else some (ofWord table word)

def ofClasses (table : List String) (text : String) : List Token :=
  (Text.words text.toList).filterMap fun word => ofString? table (String.ofList word)

end Token
end QualityGate.UtilityClass
