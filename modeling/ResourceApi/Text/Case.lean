import ResourceApi.Text
import ResourceApi.Text.CaseTable

/-!
# Lower case

The lower-case form of a character is one character, except for the capital I with a dot above,
which becomes an `i` and a combining dot.
-/

namespace ResourceApi.Text

def CaseRun.covers (r : CaseRun) (n : Nat) : Bool :=
  r.first ≤ n && n ≤ r.last && (n - r.first) % r.stride == 0

/-- The lower-case form of a character. -/
def lowerChar (c : Char) : List Char :=
  if c.toNat = 0x130 then ['i', Char.ofNat 0x307]
  else
    match caseRuns.find? (·.covers c.toNat) with
    | some r => [Char.ofNat ((c.toNat : Int) + r.offset).toNat]
    | none => [c]

/-- The lower-case form of a code point; half of a pair has none but itself. -/
def lower : CodePoint → List CodePoint
  | .char c => (lowerChar c).map .char
  | .half n => [.half n]

/-- The text with its first code point in lower case. -/
def lowerFirst (s : Text) : Text :=
  match s.points with
  | [] => s
  | c :: cs => ⟨lower c ++ cs⟩

end ResourceApi.Text
