/-!
# Dates and moments

A date of the Gregorian calendar, and a date with a time of day that may stand at an offset from
universal time. Two moments with offsets are the same when they name one instant; two without are
the same when all their parts agree.
-/

namespace ResourceApi

/-- A day of the years 1 to 9999. -/
structure Date where
  year : Nat
  month : Nat
  day : Nat
  deriving DecidableEq, Repr, Inhabited

/-- A date and a time of day, with the offset from universal time in minutes when it is known. -/
structure Moment where
  date : Date
  hour : Nat
  minute : Nat
  second : Nat
  microsecond : Nat
  offset : Option Int
  deriving DecidableEq, Repr, Inhabited

namespace Date

def isLeap (year : Nat) : Bool := year % 4 == 0 && (year % 100 != 0 || year % 400 == 0)

def daysIn (year month : Nat) : Nat :=
  match month with
  | 2 => if isLeap year then 29 else 28
  | 4 | 6 | 9 | 11 => 30
  | _ => 31

def IsValid (d : Date) : Prop :=
  1 ≤ d.year ∧ d.year ≤ 9999 ∧ 1 ≤ d.month ∧ d.month ≤ 12 ∧ 1 ≤ d.day ∧
    d.day ≤ daysIn d.year d.month

instance (d : Date) : Decidable d.IsValid := inferInstanceAs (Decidable (_ ∧ _))

/-- Days before the date since the first day of year 1. -/
def ordinal (d : Date) : Nat :=
  let y := d.year - 1
  365 * y + y / 4 - y / 100 + y / 400 +
    (List.range' 1 (d.month - 1)).foldl (fun days month => days + daysIn d.year month) 0 +
    (d.day - 1)

end Date

namespace Moment

def IsValid (t : Moment) : Prop :=
  t.date.IsValid ∧ t.hour < 24 ∧ t.minute < 60 ∧ t.second < 60 ∧ t.microsecond < 1000000 ∧
    ∀ o ∈ t.offset, o.natAbs < 24 * 60

instance (t : Moment) : Decidable t.IsValid := inferInstanceAs (Decidable (_ ∧ _))

/-- Microseconds since the first day of year 1, at the moment's own offset. -/
def ticks (t : Moment) : Nat :=
  (((t.date.ordinal * 24 + t.hour) * 60 + t.minute) * 60 + t.second) * 1000000 + t.microsecond

/-- Do the moments name one instant? -/
def same (a b : Moment) : Bool :=
  match a.offset, b.offset with
  | none, none => a.ticks == b.ticks
  | some o, some p => (a.ticks : Int) - o * 60000000 == (b.ticks : Int) - p * 60000000
  | _, _ => false

end Moment

end ResourceApi
