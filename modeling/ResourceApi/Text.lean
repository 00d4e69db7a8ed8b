/-!
# Texts

A text is a list of code points. A code point is a character, or one half of a pair of code units
that stands without the other half: a definition can name such a half by its code. Halves are kept
wherever a text is carried along, two of them never join to a character, and they have no place in
an encoded text (`Text.toString?`).

Characters and strings are texts, so literals may stand where a text is due.
-/

namespace ResourceApi

/-- A character, or half of a pair of code units. -/
inductive CodePoint where
  | char (c : Char)
  /-- The half with the code `0xD800 + n`. -/
  | half (n : Fin 0x800)
  deriving DecidableEq, Repr, Inhabited

namespace CodePoint

instance : Coe Char CodePoint := ⟨CodePoint.char⟩

def code : CodePoint → Nat
  | char c => c.toNat
  | half n => 0xD800 + n

/-- The code point of a code; a code beyond the last gives the first character. -/
def ofCode (n : Nat) : CodePoint :=
  if h : 0xD800 ≤ n ∧ n < 0xE000 then .half ⟨n - 0xD800, by omega⟩ else .char (Char.ofNat n)

def char? : CodePoint → Option Char
  | char c => some c
  | half _ => none

/-- Does the code lie in one of some ranges? -/
def isIn (c : CodePoint) (ranges : List (Nat × Nat)) : Bool :=
  ranges.any fun r => r.1 ≤ c.code && c.code ≤ r.2

end CodePoint

/-- A list of code points. -/
structure Text where
  points : List CodePoint
  deriving DecidableEq, Repr, Inhabited

namespace Text

def ofChars (cs : List Char) : Text := ⟨cs.map .char⟩

def ofString (s : String) : Text := ofChars s.toList

instance : Coe String Text := ⟨ofString⟩

/-- The text without code points. -/
def empty : Text := ⟨[]⟩

instance : Append Text := ⟨fun s t => ⟨s.points ++ t.points⟩⟩

def isEmpty (t : Text) : Bool := t.points.isEmpty

/-- Texts one after the other, with a separator between them. -/
def join (separator : Text) : List Text → Text
  | [] => ""
  | [t] => t
  | t :: ts => t ++ separator ++ join separator ts

/-- Does a text not come after another, in the order of their codes? -/
def precedes (s t : Text) : Bool := inOrder s.points t.points
where
  inOrder : List CodePoint → List CodePoint → Bool
    | [], _ => true
    | _ :: _, [] => false
    | a :: as, b :: bs => a.code < b.code || (a.code == b.code && inOrder as bs)

/-! ## Halves -/

/-- The characters of a text without halves. -/
def chars? (t : Text) : Option (List Char) := t.points.mapM CodePoint.char?

/-- A text without halves as a string. -/
def toString? (t : Text) : Option String := t.chars?.map String.ofList

/-- The last `width` hexadecimal digits of a number. -/
def hex (width n : Nat) : List Char :=
  (List.range width).reverse.map fun i => Nat.digitChar (n / Nat.pow 16 i % 16)

/-- The text with every half written by its code. -/
def shown (t : Text) : String :=
  String.ofList (t.points.flatMap fun
    | .char c => [c]
    | .half n => '\\' :: 'u' :: hex 4 (CodePoint.half n).code)

/-- The text with three replacement characters for every half, one for each of its octets. -/
def replaced (t : Text) : Text :=
  ⟨t.points.flatMap fun
    | .char c => [.char c]
    | .half _ => List.replicate 3 (.char '\ufffd')⟩

/-! ## Laws -/

@[simp] theorem points_append (s t : Text) : (s ++ t).points = s.points ++ t.points := rfl

@[simp] theorem points_ofString (s : String) : (ofString s).points = s.toList.map .char := rfl

theorem append_assoc (s t u : Text) : s ++ t ++ u = s ++ (t ++ u) :=
  congrArg Text.mk (List.append_assoc ..)

theorem chars?_ofChars (cs : List Char) : (ofChars cs).chars? = some cs := by
  induction cs with
  | nil => rfl
  | cons c cs ih =>
    have ih : (cs.map CodePoint.char).mapM CodePoint.char? = some cs := ih
    simp [chars?, ofChars, List.mapM_cons, CodePoint.char?, ih]

end Text

end ResourceApi
