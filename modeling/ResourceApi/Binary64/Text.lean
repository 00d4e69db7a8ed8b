import ResourceApi.Binary64

/-!
# The shortest decimal text of a floating-point number

`shortest` gives the fewest digits that read back as the number, and of those the nearest. For
each digit count it tests the two neighbours of the value on that decimal grid; the first grid
with a neighbour inside the rounding interval wins. How the digits are laid out is a `Layout`.
-/

namespace ResourceApi

namespace Binary64

/-- Does `4 * digits * 10 ^ scale` lie between `lower` and `upper` times `2 ^ exponent`? The ends
count when `closed`. -/
def inInterval (lower upper : Nat) (exponent : Int) (closed : Bool) (digits : Nat) (scale : Int) :
    Bool :=
  let left := 4 * digits * pow10 scale.toNat * pow2 (-exponent).toNat
  let right (bound : Nat) := bound * pow10 (-scale).toNat * pow2 exponent.toNat
  if closed then right lower ≤ left && left ≤ right upper
  else right lower < left && left < right upper

/-- The digits of a positive value on the grid of `count` digits: the neighbour of
`m · 2 ^ exponent` that rounds back to it, and the nearer one when both do. -/
def onGrid (m : Nat) (exponent : Int) (magnitude : Int) (count : Nat) : Option (Nat × Int) :=
  let scale := magnitude - count
  let num := m * pow2 exponent.toNat * pow10 (-scale).toNat
  let den := pow2 (-exponent).toNat * pow10 scale.toNat
  let floor := num / den
  let lower := if m = pow2 52 && minExponent < exponent then 4 * m - 1 else 4 * m - 2
  let test := fun d => inInterval lower (4 * m + 2) exponent (m % 2 = 0) d scale
  let near := nearest num den
  let far := if near = floor then floor + 1 else floor
  if test near then some (near, scale)
  else if test far then some (far, scale)
  else none

/-- The least `k` with `m · 2 ^ exponent < 10 ^ k`, searched upwards from `start`. -/
def magnitudeFrom (m : Nat) (exponent : Int) : Nat → Int → Int
  | 0, k => k
  | fuel + 1, k =>
    if m * pow2 exponent.toNat * pow10 (-k).toNat < pow10 k.toNat * pow2 (-exponent).toNat then k
    else magnitudeFrom m exponent fuel (k + 1)

/-- The number of digits before the decimal point. -/
def magnitude (m : Nat) (exponent : Int) : Int :=
  let bits : Int := (m.log2 : Int) + exponent
  magnitudeFrom m exponent 8 (bits * 30103 / 100000 - 2)

/-- Digits and scale with no zero at the end. -/
def trim : Nat → Nat × Int → Nat × Int
  | 0, r => r
  | fuel + 1, (digits, scale) =>
    if digits % 10 = 0 ∧ digits ≠ 0 then trim fuel (digits / 10, scale + 1) else (digits, scale)

/-- The fewest digits that read back as `m · 2 ^ exponent`, with their decimal scale. -/
def shortest (m : Nat) (exponent : Int) : Nat × Int :=
  let k := magnitude m exponent
  match (List.range' 1 17).findSome? (onGrid m exponent k) with
  | some r => trim 20 r
  | none => (m, exponent)

/-- How a number is spelled. -/
structure Layout where
  nan : String
  infinity : String
  negativeInfinity : String
  /-- Is a single digit before an exponent followed by `.0`? -/
  pointBeforeExponent : Bool

/-- Positional from `0.0001` to below `10 ^ 16`, otherwise one digit, the fraction, and an
exponent of two digits or more with its sign. -/
def layOut (l : Layout) (digits : List Char) (scale : Int) : List Char :=
  let count : Int := digits.length
  let point := count + scale
  if -4 < point ∧ point ≤ 16 then
    if point ≤ 0 then '0' :: '.' :: (List.replicate point.natAbs '0' ++ digits)
    else if scale ≥ 0 then digits ++ List.replicate scale.toNat '0' ++ ['.', '0']
    else digits.take point.toNat ++ '.' :: digits.drop point.toNat
  else
    let exponent := point - 1
    let mark := if exponent < 0 then '-' else '+'
    let shown := Nat.toDigits 10 exponent.natAbs
    let shown := if shown.length < 2 then '0' :: shown else shown
    let fraction :=
      match digits.drop 1 with
      | [] => if l.pointBeforeExponent then ['.', '0'] else []
      | rest => '.' :: rest
    digits.take 1 ++ fraction ++ 'e' :: mark :: shown

/-- The text of a number. -/
def text (l : Layout) : Binary64 → String
  | .nan => l.nan
  | .infinite negative => if negative then l.negativeInfinity else l.infinity
  | .finite negative m q =>
    let (digits, scale) := if m = 0 then (0, 0) else shortest m q
    let body := layOut l (Nat.toDigits 10 digits) scale
    String.ofList (if negative then '-' :: body else body)

end Binary64

end ResourceApi
