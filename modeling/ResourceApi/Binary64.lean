/-!
# Floating-point numbers

A finite number is a sign, a mantissa `m` and an exponent `q`, standing for `± m · 2 ^ q`. Values
built by `round` are canonical: `m < 2 ^ 53`, `-1074 ≤ q ≤ 971`, and `2 ^ 52 ≤ m` unless
`q = -1074`. So equal numbers of one sign are equal as data, and every operation is exact
arithmetic on natural numbers followed by one rounding.
-/

namespace ResourceApi

/-- A binary64 number. -/
inductive Binary64 where
  | nan
  | infinite (negative : Bool)
  | finite (negative : Bool) (mantissa : Nat) (exponent : Int)
  deriving DecidableEq, Repr, Inhabited

namespace Binary64

/-- The least exponent. -/
def minExponent : Int := -1074

/-- The greatest exponent. -/
def maxExponent : Int := 971

def zero (negative : Bool) : Binary64 := .finite negative 0 minExponent

def pow2 (n : Nat) : Nat := Nat.pow 2 n

def pow10 (n : Nat) : Nat := Nat.pow 10 n

/-- `num / den` in units of `2 ^ q`, as a fraction. -/
def inUnits (num den : Nat) (q : Int) : Nat × Nat :=
  if q < 0 then (num * pow2 q.natAbs, den) else (num, den * pow2 q.natAbs)

/-- The nearest natural number; a tie goes to the even neighbour. -/
def nearest (num den : Nat) : Nat :=
  let floor := num / den
  let rest := 2 * (num % den)
  if rest < den then floor
  else if rest > den then floor + 1
  else if floor % 2 = 0 then floor else floor + 1

/-- The binary64 number nearest to `± num / den`; a tie goes to the even mantissa. -/
def round (negative : Bool) (num den : Nat) : Binary64 :=
  if num = 0 then zero negative
  else
    let low : Int := (num.log2 : Int) - (den.log2 : Int) - 53
    let scaled := inUnits num den low
    let q := max minExponent (if scaled.1 / scaled.2 < pow2 53 then low else low + 1)
    let units := inUnits num den q
    let m := nearest units.1 units.2
    let carry := decide (m = pow2 53)
    let q := if carry then q + 1 else q
    if maxExponent < q then .infinite negative
    else .finite negative (if carry then pow2 52 else m) q

/-- The number nearest to `± digits · 10 ^ exponent`. -/
def ofDecimal (negative : Bool) (digits : Nat) (exponent : Int) : Binary64 :=
  if digits = 0 then zero negative
  else if 310 < exponent then .infinite negative
  else if exponent + (digits.log2 : Int) < -1200 then zero negative
  else if exponent < 0 then round negative digits (pow10 exponent.natAbs)
  else round negative (digits * pow10 exponent.natAbs) 1

def ofInt (n : Int) : Binary64 := round (decide (n < 0)) n.natAbs 1

def isZero : Binary64 → Bool
  | .finite _ 0 _ => true
  | _ => false

/-- A finite number as a fraction with a positive denominator. -/
def toFraction? : Binary64 → Option (Int × Nat)
  | .finite negative m q =>
    let num : Int := if q < 0 then m else m * pow2 q.natAbs
    some (if negative then -num else num, if q < 0 then pow2 q.natAbs else 1)
  | _ => none

/-- The value of a finite number that has no fractional part. -/
def toInt? (x : Binary64) : Option Int :=
  match x.toFraction? with
  | some (num, den) => if num % (den : Int) = 0 then some (num / (den : Int)) else none
  | none => none

def neg : Binary64 → Binary64
  | .nan => .nan
  | .infinite negative => .infinite (!negative)
  | .finite negative m q => .finite (!negative) m q

/-- Has the number a minus sign? Zero may have one. -/
def isNegative : Binary64 → Bool
  | .nan => false
  | .infinite negative => negative
  | .finite negative _ _ => negative

/-- The rounded sum. Infinities of both signs have none; a zero is negative only as the sum of
negative zeros. -/
def add : Binary64 → Binary64 → Binary64
  | .infinite a, .infinite b => if a = b then .infinite a else .nan
  | x, y =>
    match x.toFraction?, y.toFraction? with
    | some (a, b), some (c, d) =>
      let num := a * (d : Int) + c * (b : Int)
      let negative := if num = 0 then x.isNegative && y.isNegative else decide (num < 0)
      round negative num.natAbs (b * d)
    | none, some _ => x
    | some _, none => y
    | none, none => .nan

/-- The rounded product. Zero and infinity have none. -/
def mul (x y : Binary64) : Binary64 :=
  let negative := x.isNegative != y.isNegative
  match x.toFraction?, y.toFraction? with
  | some (a, b), some (c, d) => round negative (a.natAbs * c.natAbs) (b * d)
  | _, _ => if x = .nan ∨ y = .nan ∨ x.isZero ∨ y.isZero then .nan else .infinite negative

end Binary64

end ResourceApi
