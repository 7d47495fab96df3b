/-!
Ratios of counts as binary fractions of 53 bits, and the shortest decimals that stand for them.
-/
namespace QualityGate.Decimal

def pow2 (n : Nat) : Nat := Nat.pow 2 n

def pow10 (n : Nat) : Nat := Nat.pow 10 n

/-- The fraction `significand / 2 ^ scale`. -/
structure Binary where
  significand : Nat
  scale : Nat
  deriving DecidableEq, Repr

/-- `n / d` rounded to a whole number, a half to the even one. -/
def roundDiv (n d : Nat) : Nat :=
  let q := n / d
  let r := 2 * (n % d)
  if r > d || (r = d && q % 2 = 1) then q + 1 else q

/-- The whole number of at most 53 leading bits that is nearest to `n`. -/
def leading (n : Nat) : Nat :=
  let low := n.log2 - 52
  roundDiv n (pow2 low) * pow2 low

/-- The fraction of 53 bits nearest to `n / d`, for `0 < n ≤ d`. -/
def Binary.ofRatio (n d : Nat) : Binary :=
  let shift := d.log2 - n.log2
  let scale := if n * pow2 shift ≥ d then 52 + shift else 53 + shift
  let m := roundDiv (n * pow2 scale) d
  if m = pow2 53 then ⟨pow2 52, scale - 1⟩ else ⟨m, scale⟩

/-- The decimal `0.d₁d₂… · 10 ^ -shift` with `digits = d₁d₂…`. -/
structure Digits where
  digits : Nat
  count : Nat
  shift : Nat
  deriving DecidableEq, Repr

/-- The same number where rounding up has added a digit: then it is a power of ten. -/
def Digits.carried (d : Digits) : Digits :=
  if d.digits = pow10 d.count then ⟨1, 1, d.shift - 1⟩ else d

/-- Whether `c / 10 ^ places` rounds to `b`: whether it lies between the middles to the neighbours
of `b`, which belong to an even `b`. All is measured in quarters of the last bit. -/
def rounds (b : Binary) (c places : Nat) : Bool :=
  let value := c * pow2 (b.scale + 2)
  let unit := pow10 places
  let low := if b.significand = pow2 52 then 4 * b.significand - 1 else 4 * b.significand - 2
  let high := 4 * b.significand + 2
  if b.significand % 2 = 0 then low * unit ≤ value && value ≤ high * unit
  else low * unit < value && value < high * unit

/-- The decimal with `count` digits behind the leading zeros that is nearest to `b`, if it rounds to
`b`. -/
def nearest? (b : Binary) (shift count : Nat) : Option Digits :=
  let places := count + shift
  let scaled := b.significand * pow10 places
  let floor := scaled / pow2 b.scale
  let low := rounds b floor places
  let high := rounds b (floor + 1) places
  if low && (!high || 2 * (scaled - floor * pow2 b.scale) ≤ pow2 b.scale) then
    some ⟨floor, count, shift⟩
  else if high then some (Digits.carried ⟨floor + 1, count, shift⟩)
  else none

/-- The zeros between the point and the first other digit. -/
def leadingZeros (b : Binary) : Nat → Nat → Nat
  | 0, shift => shift
  | fuel + 1, shift =>
    if b.significand * pow10 (shift + 1) < pow2 b.scale then leadingZeros b fuel (shift + 1)
    else shift

/-- The shortest decimal that rounds to `b`, for `b` below 1. -/
def Binary.shortest (b : Binary) : Digits :=
  let shift := leadingZeros b b.scale 0
  ((List.range 17).findSome? fun n => nearest? b shift (n + 1)).getD ⟨0, 1, 0⟩

/-- Four zeros behind the point at most; smaller numbers have an exponent. -/
def Digits.write (d : Digits) : List Char :=
  let ds := (toString d.digits).toList
  if d.shift ≤ 4 then '0' :: '.' :: List.replicate d.shift '0' ++ ds
  else
    let exponent := 'e' :: '-' :: (toString (d.shift + 1)).toList
    match ds with
    | [c] => c :: exponent
    | c :: cs => c :: '.' :: cs ++ exponent
    | [] => []

/-- The text of `part / whole`, which is 0 where `whole` is. -/
def ratio (part whole : Nat) : List Char :=
  if part = 0 || whole = 0 then ['0', '.', '0']
  else
    let b := Binary.ofRatio (leading part) (leading whole)
    if b.significand ≥ pow2 b.scale then ['1', '.', '0'] else b.shortest.write

end QualityGate.Decimal
