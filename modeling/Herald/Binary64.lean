namespace Herald

/-- A double-precision number by its sixty-four bits: a sign, eleven bits of exponent and
fifty-two of fraction. -/
structure Binary64 where
  bits : UInt64
deriving DecidableEq, Repr

namespace Binary64

def isNegative (x : Binary64) : Bool := x.bits.toNat.testBit 63

def exponentBits (x : Binary64) : Nat := (x.bits.toNat >>> 52) % 2048

def isFinite (x : Binary64) : Bool := x.exponentBits < 2047

def leadingBit : Nat := 1 <<< 52

def significand (x : Binary64) : Nat :=
  x.bits.toNat % leadingBit + if x.exponentBits = 0 then 0 else leadingBit

def exponent (x : Binary64) : Int := (max x.exponentBits 1 : Nat) - 1075

def zero : Binary64 := ⟨0⟩

def infinity : Binary64 := ⟨0x7FF0000000000000⟩

def neg (x : Binary64) : Binary64 := ⟨x.bits ^^^ 0x8000000000000000⟩

def roundQuotient (num den : Nat) : Nat :=
  let q := num / den
  let r := 2 * (num % den)
  if den < r ∨ den = r ∧ q % 2 = 1 then q + 1 else q

/-- The number of powers of two that the last place of a quotient is worth: the quotient then has
at most fifty-three places before its point. -/
def lastPlace (num den : Nat) : Int :=
  let e := max ((Nat.log2 num : Int) - Nat.log2 den - 53) (-1074)
  if den <<< (e.toNat + 53) ≤ num <<< (-e).toNat then e + 1 else e

def ofRatio (num den : Nat) : Binary64 :=
  if num = 0 then zero
  else
    let e := lastPlace num den
    let m := roundQuotient (num <<< (-e).toNat) (den <<< e.toNat)
    let bits := (e + 1074).toNat <<< 52 + m
    if bits < infinity.bits.toNat then ⟨bits.toUInt64⟩ else infinity

def ratio (x : Binary64) : Nat × Nat :=
  (x.significand <<< x.exponent.toNat, 1 <<< (-x.exponent).toNat)

def mul (x y : Binary64) : Binary64 :=
  ofRatio (x.ratio.1 * y.ratio.1) (x.ratio.2 * y.ratio.2)

def div (x y : Binary64) : Binary64 :=
  ofRatio (x.ratio.1 * y.ratio.2) (x.ratio.2 * y.ratio.1)

def powerOfTen (n : Nat) : Binary64 := ofRatio (Nat.pow 10 n) 1

/-- Scales by a power of ten in steps of at most 308 powers, each rounded. There is no result
above the finite range. -/
def scale (x : Binary64) (exponent : Int) : Option Binary64 :=
  if x = zero then some zero
  else if 308 < exponent then none
  else if 0 ≤ exponent then
    let y := x.mul (powerOfTen exponent.toNat)
    if y.isFinite then some y else none
  else if -308 ≤ exponent then some (x.div (powerOfTen (-exponent).toNat))
  else scale (x.div (powerOfTen 308)) (exponent + 308)
termination_by exponent.natAbs
decreasing_by omega

/-- The place of the decimal point of a positive quotient: it is below `10 ^ point` and not below
`10 ^ (point - 1)`. -/
def decimalPoint (num den : Nat) : Int :=
  if den ≤ num then (Nat.toDigits 10 (num / den)).length
  else -(((List.range 400).find? fun j ↦ den ≤ num * Nat.pow 10 (j + 1)).getD 0 : Nat)

/-- A number `c * 10 ^ k` that reads back as `x`, where `c` is one of the two neighbours of
`x / 10 ^ k`: the nearer one if both read back, and of two equally near the even one. -/
def nearestOn (x : Binary64) (k : Int) : Option Nat :=
  let m := x.significand
  let q := x.exponent - 2
  let a := Nat.pow 10 (-k).toNat <<< q.toNat
  let b := Nat.pow 10 k.toNat <<< (-q).toNat
  let low := (4 * m - if m = leadingBit ∧ -1074 < x.exponent then 1 else 2) * a
  let high := (4 * m + 2) * a
  let readsBack (c : Nat) : Bool :=
    if m % 2 = 0 then low ≤ c * b && c * b ≤ high else low < c * b && c * b < high
  let c := 4 * m * a / b
  match readsBack c, readsBack (c + 1) with
  | true, true => some (roundQuotient (4 * m * a) b)
  | true, false => some c
  | false, true => some (c + 1)
  | false, false => none

/-- The fewest digits that read back as a finite number other than zero, and the place of the
point relative to the first of them. -/
def shortest (x : Binary64) : List Char × Int :=
  let point := decimalPoint x.ratio.1 x.ratio.2
  let found := (List.range 17).findSome? fun n ↦
    (x.nearestOn (point - (n + 1 : Nat))).map fun c ↦ (n + 1, c)
  match found with
  | some (n, c) =>
    let digits := Nat.toDigits 10 c
    ((digits.reverse.dropWhile (· == '0')).reverse, point + digits.length - n)
  | none => (['0'], 1)

/-- Digits around a point that stands after the first `point` of them: in full as long as the
point is less than five places before or at most sixteen places after the first digit, and with an
exponent otherwise. There is always a point or an exponent. -/
def layout (digits : List Char) (point : Int) : List Char :=
  let zeros (n : Int) : List Char := List.replicate n.toNat '0'
  if digits.length ≤ point ∧ point ≤ 16 then
    digits ++ zeros (point - digits.length) ++ ['.', '0']
  else if 0 < point ∧ point ≤ 16 then
    digits.take point.toNat ++ '.' :: digits.drop point.toNat
  else if -5 < point ∧ point ≤ 0 then
    '0' :: '.' :: zeros (-point) ++ digits
  else
    let tail := (toString (point - 1)).toList
    match digits with
    | [d] => d :: 'e' :: tail
    | d :: ds => d :: '.' :: ds ++ 'e' :: tail
    | [] => []

def text (x : Binary64) : List Char :=
  let sign := if x.isNegative then ['-'] else []
  if x.significand = 0 then sign ++ ['0', '.', '0']
  else sign ++ layout x.shortest.1 x.shortest.2

end Binary64

end Herald
