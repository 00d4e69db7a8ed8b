import ResourceApi.Binary64.Text
import ResourceApi.Data
import ResourceApi.Misfit
import ResourceApi.Text.Quoted

/-!
# The text of a loaded value

`text` gives the text that stands for a value where only text has a place: a text stands for
itself, and every other value is written out. `written` writes out every value, texts in quotes;
it is what `text` shows of the parts of a list or map. A whole number of very many digits is not
written out. A list or map that holds itself is written with dots wherever it comes again.
-/

namespace ResourceApi

namespace Data

/-- The spelling of numbers that are not whole. -/
def numbers : Binary64.Layout := ⟨"nan", "inf", "-inf", false⟩

/-- Decimal digits with zeros in front up to a width. -/
def padded (width n : Nat) : String :=
  let ds := Nat.toDigits 10 n
  String.ofList (List.replicate (width - ds.length) '0' ++ ds)

def dateText (d : Date) : String :=
  padded 4 d.year ++ "-" ++ padded 2 d.month ++ "-" ++ padded 2 d.day

def momentText (t : Moment) : String :=
  let fraction := if t.microsecond = 0 then "" else "." ++ padded 6 t.microsecond
  let offset :=
    match t.offset with
    | none => ""
    | some o =>
      (if o < 0 then "-" else "+") ++ padded 2 (o.natAbs / 60) ++ ":" ++ padded 2 (o.natAbs % 60)
  dateText t.date ++ " " ++ padded 2 t.hour ++ ":" ++ padded 2 t.minute ++ ":" ++
    padded 2 t.second ++ fraction ++ offset

def dateWritten (d : Date) : String :=
  "datetime.date(" ++ ", ".intercalate ([d.year, d.month, d.day].map toString) ++ ")"

/-- An offset written out: whole days, then seconds of a day. -/
def offsetWritten (minutes : Int) : String :=
  if minutes = 0 then "datetime.timezone.utc"
  else
    let days := minutes / 1440
    let seconds := minutes % 1440 * 60
    let parts := (if days = 0 then [] else [s!"days={days}"]) ++
      (if seconds = 0 then [] else [s!"seconds={seconds}"])
    "datetime.timezone(datetime.timedelta(" ++ ", ".intercalate parts ++ "))"

def momentWritten (t : Moment) : String :=
  let parts := [t.date.year, t.date.month, t.date.day, t.hour, t.minute].map toString
  let small :=
    if t.microsecond ≠ 0 then [toString t.second, toString t.microsecond]
    else if t.second ≠ 0 then [toString t.second]
    else []
  let offset :=
    match t.offset with
    | none => []
    | some o => ["tzinfo=" ++ offsetWritten o]
  "datetime.datetime(" ++ ", ".intercalate (parts ++ small ++ offset) ++ ")"

/-- An octet inside quotes. -/
def octetEscape (quote : Char) (n : Nat) : List Char :=
  let c := Char.ofNat n
  if c = quote ∨ c = '\\' then ['\\', c]
  else if c = '\n' then ['\\', 'n']
  else if c = '\r' then ['\\', 'r']
  else if c = '\t' then ['\\', 't']
  else if 0x20 ≤ n ∧ n < 0x7F then [c]
  else '\\' :: 'x' :: Text.hex 2 n

def octetsWritten (octets : List Nat) : Text :=
  let quote := Text.quoteOf (octets.map CodePoint.ofCode)
  Text.ofChars ('b' :: quote :: (octets.flatMap (octetEscape quote) ++ [quote]))

/-- Whole numbers from this one on are not written out, and neither are their opposites. -/
def writtenBound : Nat := Nat.pow 10 4300

def intWritten (n : Int) : Except Misfit Text :=
  if n.natAbs < writtenBound then .ok (toString n) else .error .numberTooLong

/-- The dots for a list or map that holds itself. -/
def dots : Data → Text
  | .map _ => "\x7b...\x7d"
  | _ => "[...]"

/-- The dots for a label, given those of the knots around it. -/
def dotsOf (around : List (Nat × Text)) (label : Nat) : Text := (around.lookup label).getD "..."

mutual

/-- A value inside some knots written out, texts in quotes. -/
def writtenIn (around : List (Nat × Text)) : Data → Except Misfit Text
  | .null => .ok "None"
  | .bool b => .ok (if b then "True" else "False")
  | .int n => intWritten n
  | .real x => .ok (x.text numbers)
  | .str s => .ok (Text.quoted s)
  | .bytes b => .ok (octetsWritten b)
  | .date d => .ok (dateWritten d)
  | .moment t => .ok (momentWritten t)
  | .list xs => (writtenItems around xs).map fun ts => "[" ++ Text.join ", " ts ++ "]"
  | .pair a b => do return "(" ++ (← writtenIn around a) ++ ", " ++ (← writtenIn around b) ++ ")"
  | .set [] => .ok "set()"
  | .set (x :: xs) => do
    return "\x7b" ++ Text.join ", " ((← writtenIn around x) :: (← writtenItems around xs)) ++ "\x7d"
  | .map ms => (writtenMembers around ms).map fun ts => "\x7b" ++ Text.join ", " ts ++ "\x7d"
  | .knot l body =>
    if (around.lookup l).isSome then .ok (dotsOf around l)
    else writtenIn ((l, dots body) :: around) body
  | .again l => .ok (dotsOf around l)

def writtenItems (around : List (Nat × Text)) : List Data → Except Misfit (List Text)
  | [] => .ok []
  | x :: xs => do return (← writtenIn around x) :: (← writtenItems around xs)

def writtenMembers (around : List (Nat × Text)) : List (Data × Data) → Except Misfit (List Text)
  | [] => .ok []
  | (k, x) :: ms => do
    return ((← writtenIn around k) ++ ": " ++ (← writtenIn around x)) ::
      (← writtenMembers around ms)

end

/-- A value written out, texts in quotes. -/
def written (v : Data) : Except Misfit Text := writtenIn [] v

/-- The text that stands for a value. -/
def text : Data → Except Misfit Text
  | .str s => .ok s
  | .date d => .ok (dateText d)
  | .moment t => .ok (momentText t)
  | v => written v

/-! ## As JSON -/

/-- A key as the name of a member. -/
def keyText : Data → Except Misfit Text
  | .null => .ok "null"
  | .bool b => .ok (if b then "true" else "false")
  | v => text v

mutual

/-- A loaded value as JSON; kinds that JSON lacks stand as their text. A value that holds itself
cannot be JSON. -/
def toJson : Data → Except Misfit Json
  | .null => .ok .null
  | .bool b => .ok (.bool b)
  | .int n => .ok (.int n)
  | .real x => .ok (.real x)
  | .str s => .ok (.str s)
  | .list xs => (toItems xs).map Json.arr
  | .pair a b => do return .arr [← toJson a, ← toJson b]
  | .set xs => (toItems xs).map Json.arr
  | .map ms => (toMembers ms).map fun ms => .obj (Assoc.ofList ms)
  | .bytes b => .ok (.str (octetsWritten b))
  | .date d => .ok (.str (dateText d))
  | .moment t => .ok (.str (momentText t))
  | .knot _ _ | .again _ => .error .cyclic

def toItems : List Data → Except Misfit (List Json)
  | [] => .ok []
  | x :: xs => do return (← toJson x) :: (← toItems xs)

def toMembers : List (Data × Data) → Except Misfit (List (Text × Json))
  | [] => .ok []
  | (k, x) :: ms => do return (← keyText k, ← toJson x) :: (← toMembers ms)

end

end Data

end ResourceApi
