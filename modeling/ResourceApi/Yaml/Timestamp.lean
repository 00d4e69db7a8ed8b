import ResourceApi.Data.Moment

/-!
# Timestamps

A timestamp is a date, written as a year of four digits, a month and a day, and possibly a time of
day after a `T` or blanks, with fractions of a second and an offset from universal time. Reading
gives its parts as they stand; whether they name a day or a moment of the calendar is a second
question.
-/

namespace ResourceApi.Yaml

/-- The parts of a timestamp. -/
structure Timestamp where
  date : Date
  /-- A date alone has no time; then it counts whether month and day have two digits each. -/
  time : Option Moment
  isPadded : Bool
  deriving Repr

namespace Timestamp

/-- The value of a run of decimal digits. -/
def digitsValue (ds : List Char) : Nat :=
  ds.foldl (fun n c => 10 * n + (c.toNat - '0'.toNat)) 0

/-- A run of digits at the front, when its length lies between two bounds. -/
def digits? (low high : Nat) (cs : List Char) : Option (List Char × List Char) :=
  let ds := cs.takeWhile Char.isDigit
  if low ≤ ds.length ∧ ds.length ≤ high then some (ds, cs.dropWhile Char.isDigit) else none

/-- A character at the front, and the rest. -/
def expect? (c : Char) : List Char → Option (List Char)
  | d :: cs => if d = c then some cs else none
  | [] => none

def isBlankOrTab (c : Char) : Bool := c = ' ' || c = '\t'

/-- An offset at the end of a timestamp, in minutes; `some none` when there is none. -/
def offset? (cs : List Char) : Option (Option Int) :=
  match cs.dropWhile isBlankOrTab with
  | [] => if cs = [] then some none else none
  | ['Z'] => some (some 0)
  | c :: rest =>
    if c = '+' ∨ c = '-' then do
      let (hours, rest) ← digits? 1 2 rest
      let minutes ←
        match rest with
        | [] => some []
        | ':' :: rest =>
          (digits? 2 2 rest).bind fun (ds, rest) => if rest = [] then some ds else none
        | _ => none
      let total : Int := digitsValue hours * 60 + digitsValue minutes
      return some (if c = '-' then -total else total)
    else none

/-- The microseconds that the digits of a fraction name; further digits do not count. -/
def microseconds (ds : List Char) : Nat :=
  digitsValue ((ds ++ List.replicate 6 '0').take 6)

/-- The time of day after a date. -/
def time? (date : Date) (cs : List Char) : Option Moment := do
  let (hour, cs) ← digits? 1 2 cs
  let (minute, cs) ← digits? 2 2 (← expect? ':' cs)
  let (second, cs) ← digits? 2 2 (← expect? ':' cs)
  let (fraction, cs) :=
    match cs with
    | '.' :: cs => (cs.takeWhile Char.isDigit, cs.dropWhile Char.isDigit)
    | cs => ([], cs)
  let offset ← offset? cs
  return ⟨date, digitsValue hour, digitsValue minute, digitsValue second, microseconds fraction,
    offset⟩

/-- The text without a line feed at its end. -/
def unterminated (cs : List Char) : List Char :=
  if cs.getLast? = some '\n' then cs.dropLast else cs

/-- The parts of a timestamp. -/
def read? (cs : List Char) : Option Timestamp := do
  let (year, cs) ← digits? 4 4 cs
  let (month, cs) ← digits? 1 2 (← expect? '-' cs)
  let (day, cs) ← digits? 1 2 (← expect? '-' cs)
  let date : Date := ⟨digitsValue year, digitsValue month, digitsValue day⟩
  let isPadded := month.length == 2 && day.length == 2
  match cs with
  | [] => return ⟨date, none, isPadded⟩
  | c :: rest =>
    if c = 'T' ∨ c = 't' then return ⟨date, some (← time? date rest), isPadded⟩
    else if isBlankOrTab c then
      return ⟨date, some (← time? date (rest.dropWhile isBlankOrTab)), isPadded⟩
    else none

end Timestamp

end ResourceApi.Yaml
