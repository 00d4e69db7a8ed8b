import ResourceApi.Binary64
import ResourceApi.Misfit
import ResourceApi.Text.Blank
import ResourceApi.Text.Digit
import ResourceApi.Yaml.Kind

/-!
# The values of numbers

A whole number is written in base two, eight, ten, sixteen or sixty, with marks between its digits
that do not count; a number with a point in base ten or sixty. A tag can ask for a number where
the spelling is not that of one, so reading can fail.
-/

namespace ResourceApi.Yaml

namespace Number

/-- The text without the marks between digits. -/
def ungrouped (cs : List Char) : List Char := cs.filter (· != '_')

def isNegative (cs : List Char) : Bool := cs.head? == some '-'

/-- White space that may stand around a number: blanks and line ends of ASCII without the
separators, and all white space beyond ASCII. -/
def isPadding (c : Char) : Bool :=
  Text.isBlank c && !(0x1C ≤ c.toNat && c.toNat ≤ 0x1F)

/-- The value of a digit in some base. -/
def digitIn? (base : Nat) (c : Char) : Option Nat :=
  let value :=
    match Text.digitValue? c with
    | some d => some d
    | none =>
      if 'a' ≤ c ∧ c ≤ 'f' then some (c.toNat - 'a'.toNat + 10)
      else if 'A' ≤ c ∧ c ≤ 'F' then some (c.toNat - 'A'.toNat + 10)
      else none
  value.filter (· < base)

/-- The value of digits in a base, at least one; in base ten there is a greatest length. -/
def natural? (base : Nat) (cs : List Char) : Option Nat :=
  if cs.isEmpty || (base == 10 && Text.maxDigits < cs.length) then none
  else cs.foldl (fun n? c => n?.bind fun n => (digitIn? base c).map (base * n + ·)) (some 0)

/-- The text after the letter that names a base, if it is there. -/
def afterBase (base : Nat) (cs : List Char) : List Char :=
  match base, cs with
  | 2, '0' :: 'b' :: ds | 2, '0' :: 'B' :: ds => ds
  | 8, '0' :: 'o' :: ds | 8, '0' :: 'O' :: ds => ds
  | 16, '0' :: 'x' :: ds | 16, '0' :: 'X' :: ds => ds
  | _, ds => ds

/-- A whole number in a base, with blanks around it and a sign of its own. -/
def whole? (base : Nat) (cs : List Char) : Except Misfit Int :=
  let cs := Text.trim isPadding cs
  match natural? base (afterBase base (Kind.unsigned cs)) with
  | some n => .ok (if isNegative cs then -(n : Int) else n)
  | none => .error .notNumber

/-- The value of a whole number. -/
def integer (text : List Char) : Except Misfit Int :=
  let cs := ungrouped text
  let signed (r : Except Misfit Int) : Except Misfit Int :=
    r.map fun n => if isNegative cs then -n else n
  if cs.isEmpty then .error .emptyNumber
  else
    match Kind.unsigned cs with
    | [] => .error .emptyNumber
    | ['0'] => .ok 0
    | '0' :: 'b' :: ds => signed (whole? 2 ds)
    | '0' :: 'x' :: ds => signed (whole? 16 ds)
    | '0' :: ds => signed (whole? 8 ('0' :: ds))
    | ds =>
      if ds.contains ':' then
        signed (((Text.splitOn ':' ds).mapM (whole? 10)).map fun parts =>
          parts.foldl (fun n part => 60 * n + part) 0)
      else signed (whole? 10 ds)

/-! ## Numbers with a point -/

/-- The value of a run of digits. -/
def digits (cs : List Char) : Nat :=
  cs.foldl (fun n (c : Char) => 10 * n + (Text.digitValue? c).getD 0) 0

def isDecimal (c : Char) : Bool := (Text.digitValue? c).isSome

/-- The exponent at the end of a number; no exponent is zero. -/
def exponent? : List Char → Option Int
  | [] => some 0
  | e :: cs =>
    let ds := Kind.unsigned cs
    if (e = 'e' ∨ e = 'E') ∧ ds ≠ [] ∧ ds.all isDecimal then
      some (if isNegative cs then -(digits ds : Int) else digits ds)
    else none

/-- A number without its sign. -/
def unsigned? (negative : Bool) (cs : List Char) : Option Binary64 :=
  let name := String.ofList (cs.map Char.toLower)
  if name = "inf" ∨ name = "infinity" then some (.infinite negative)
  else if name = "nan" then some .nan
  else
    let whole := cs.takeWhile isDecimal
    let (fraction, rest) :=
      match cs.dropWhile isDecimal with
      | '.' :: rest => (rest.takeWhile isDecimal, rest.dropWhile isDecimal)
      | rest => ([], rest)
    if whole.isEmpty && fraction.isEmpty then none
    else
      (exponent? rest).map fun e =>
        Binary64.ofDecimal negative (digits (whole ++ fraction)) (e - fraction.length)

/-- A number with blanks around it and a sign of its own. -/
def decimal (cs : List Char) : Except Misfit Binary64 :=
  let cs := Text.trim isPadding cs
  match unsigned? (isNegative cs) (Kind.unsigned cs) with
  | some x => .ok x
  | none => .error .notNumber

/-- The sum of parts in base sixty, the last one first. Each counts for a power of sixty, which must
itself be a number; every product and every sum is rounded. -/
def sexagesimal : Nat → Binary64 → List Binary64 → Except Misfit Binary64
  | _, sum, [] => .ok sum
  | factor, sum, x :: xs =>
    match Binary64.ofInt factor with
    | .infinite _ => .error .numberTooLarge
    | power => sexagesimal (60 * factor) (sum.add (x.mul power)) xs

/-- Is the text the word for what is no number? -/
def isNanWord (text : List Char) : Bool :=
  Kind.unsigned ((ungrouped text).map Char.toLower) == ".nan".toList

/-- The value of a number with a point. -/
def real (text : List Char) : Except Misfit Binary64 :=
  let cs := (ungrouped text).map Char.toLower
  let signed (r : Except Misfit Binary64) : Except Misfit Binary64 :=
    r.map fun x => if isNegative cs then x.neg else x
  if cs.isEmpty then .error .emptyNumber
  else
    let ds := Kind.unsigned cs
    if ds = ".inf".toList then signed (.ok (.infinite false))
    else if ds = ".nan".toList then .ok .nan
    else if ds.contains ':' then
      signed (((Text.splitOn ':' ds).mapM decimal).bind fun parts =>
        sexagesimal 1 (Binary64.zero false) parts.reverse)
    else signed (decimal ds)

end Number

end ResourceApi.Yaml
