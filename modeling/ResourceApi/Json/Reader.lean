import ResourceApi.Json
import ResourceApi.Json.Lexeme

/-!
# Reading JSON texts

The lexemes of a text drive a stack machine: the stack holds the lists and objects still open,
and the machine stands before a value, before a member, or after a complete value. A member
written twice keeps its first place and takes its last value. The numbers that have no digits are
read as they are written.
-/

namespace ResourceApi

namespace Json

/-! ## Words -/

def digitsValue (ds : List Char) : Nat :=
  ds.foldl (fun n c => 10 * n + (c.toNat - '0'.toNat)) 0

/-- A maximal run of decimal digits and the rest. -/
def splitDigits (cs : List Char) : List Char × List Char :=
  (cs.takeWhile Char.isDigit, cs.dropWhile Char.isDigit)

/-- The exponent at the end of a number; no exponent is zero. -/
def exponent? : List Char → Option Int
  | [] => some 0
  | e :: cs =>
    if e = 'e' ∨ e = 'E' then
      let (negative, ds) :=
        match cs with
        | '-' :: ds => (true, ds)
        | '+' :: ds => (false, ds)
        | ds => (false, ds)
      if ds ≠ [] ∧ ds.all Char.isDigit then
        some (if negative then -(digitsValue ds : Int) else digitsValue ds)
      else none
    else none

/-- A number without its sign: whole when it has neither fraction nor exponent. -/
def number? (negative : Bool) (cs : List Char) : Option Json :=
  let (whole, rest) := splitDigits cs
  if cs = "Infinity".toList then some (.real (.infinite negative))
  else if whole = [] ∨ (whole.length > 1 ∧ whole.head? = some '0') then none
  else
    match rest with
    | [] => some (.int (if negative then -(digitsValue whole : Int) else digitsValue whole))
    | '.' :: rest =>
      let (fraction, rest) := splitDigits rest
      if fraction = [] then none
      else
        (exponent? rest).map fun e =>
          .real (Binary64.ofDecimal negative (digitsValue (whole ++ fraction))
            (e - fraction.length))
    | rest =>
      (exponent? rest).map fun e => .real (Binary64.ofDecimal negative (digitsValue whole) e)

def word? (cs : List Char) : Option Json :=
  if cs = "null".toList then some .null
  else if cs = "true".toList then some (.bool true)
  else if cs = "false".toList then some (.bool false)
  else if cs = "NaN".toList then some (.real .nan)
  else
    match cs with
    | '-' :: cs => number? true cs
    | cs => number? false cs

/-! ## The stack machine -/

/-- A list or object still open, with what it holds in reverse. -/
inductive Frame where
  | items (read : List Json)
  | members (read : List (Text × Json)) (key : Text)

/-- Where the machine stands. -/
inductive Place where
  | value
  | firstItem
  | firstMember
  | member (read : List (Text × Json))
  | colon (read : List (Text × Json)) (key : Text)
  | complete (v : Json)

structure Machine where
  place : Place
  stack : List Frame

namespace Machine

def object (read : List (Text × Json)) : Json := .obj (Assoc.ofList read.reverse)

/-- A lexeme where a value is due. -/
def begin (stack : List Frame) : Lexeme → Option Machine
  | .openObj => some ⟨.firstMember, stack⟩
  | .openArr => some ⟨.firstItem, stack⟩
  | .text s => some ⟨.complete (.str s), stack⟩
  | .word cs => (word? cs).map fun v => ⟨.complete v, stack⟩
  | _ => none

def step : Machine → Lexeme → Option Machine
  | ⟨.value, stack⟩, l => begin stack l
  | ⟨.firstItem, stack⟩, .closeArr => some ⟨.complete (.arr []), stack⟩
  | ⟨.firstItem, stack⟩, l => begin (.items [] :: stack) l
  | ⟨.firstMember, stack⟩, .closeObj => some ⟨.complete (.obj []), stack⟩
  | ⟨.firstMember, stack⟩, .text k => some ⟨.colon [] k, stack⟩
  | ⟨.member read, stack⟩, .text k => some ⟨.colon read k, stack⟩
  | ⟨.colon read key, stack⟩, .colon => some ⟨.value, .members read key :: stack⟩
  | ⟨.complete v, .items read :: stack⟩, .comma => some ⟨.value, .items (v :: read) :: stack⟩
  | ⟨.complete v, .items read :: stack⟩, .closeArr =>
    some ⟨.complete (.arr (v :: read).reverse), stack⟩
  | ⟨.complete v, .members read key :: stack⟩, .comma => some ⟨.member ((key, v) :: read), stack⟩
  | ⟨.complete v, .members read key :: stack⟩, .closeObj =>
    some ⟨.complete (object ((key, v) :: read)), stack⟩
  | _, _ => none

def run : Machine → List Lexeme → Option Machine
  | m, [] => some m
  | m, l :: ls =>
    match step m l with
    | none => none
    | some m' => run m' ls

end Machine

/-- The value that a text writes. -/
def parse (text : List Char) : Option Json :=
  match Lexeme.ofText text with
  | none => none
  | some ls =>
    match Machine.run ⟨.value, []⟩ ls with
    | some ⟨.complete v, []⟩ => some v
    | _ => none

end Json

end ResourceApi
