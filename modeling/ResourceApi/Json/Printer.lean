import ResourceApi.Binary64.Text
import ResourceApi.Json

/-!
# JSON texts

`pretty` writes a value over several lines, two blanks to a level, every item and member on its
own line; an empty list or object stays on its line. `compact` writes a value on one line. Both
write strings alike: the quote, the backslash and the control characters below U+0020 are
escaped, and all else stands for itself.
-/

namespace ResourceApi

namespace Json

/-- The spelling of numbers that are not whole. -/
def numbers : Binary64.Layout := ⟨"NaN", "Infinity", "-Infinity", false⟩

def hexDigit (n : Nat) : Char := Nat.digitChar (n % 16)

/-- A character inside quotes. -/
def escape (c : Char) : List Char :=
  if c = '"' then ['\\', '"']
  else if c = '\\' then ['\\', '\\']
  else if c = '\n' then ['\\', 'n']
  else if c = '\r' then ['\\', 'r']
  else if c = '\t' then ['\\', 't']
  else if c = '\x08' then ['\\', 'b']
  else if c = '\x0c' then ['\\', 'f']
  else if c.toNat < 0x20 then ['\\', 'u', '0', '0', hexDigit (c.toNat / 16), hexDigit c.toNat]
  else [c]

/-- A code point inside quotes. -/
def escapePoint : CodePoint → List CodePoint
  | .char c => (escape c).map .char
  | .half n => [.half n]

def quoted (s : Text) : Text := "\"" ++ ⟨s.points.flatMap escapePoint⟩ ++ "\""

def newline (depth : Nat) : Text := Text.ofChars ('\n' :: List.replicate (2 * depth) ' ')

/-- The text of a value without parts. -/
def word : Json → Text
  | .bool b => if b then "true" else "false"
  | .int n => toString n
  | .real x => x.text numbers
  | .str s => quoted s
  | _ => "null"

mutual

/-- The text of a value whose own line stands at a depth. -/
def prettyAt (depth : Nat) : Json → Text
  | .arr [] => "[]"
  | .arr (x :: xs) =>
    "[" ++ newline (depth + 1) ++ (prettyAt (depth + 1) x ++ prettyItems (depth + 1) xs) ++
      newline depth ++ "]"
  | .obj [] => "\x7b\x7d"
  | .obj ((k, x) :: ms) =>
    "\x7b" ++ newline (depth + 1) ++
      (quoted k ++ ": " ++ (prettyAt (depth + 1) x ++ prettyMembers (depth + 1) ms)) ++
      newline depth ++ "\x7d"
  | v => word v

/-- Further items, each after a comma and on its own line. -/
def prettyItems (depth : Nat) : List Json → Text
  | [] => ""
  | x :: xs => "," ++ newline depth ++ (prettyAt depth x ++ prettyItems depth xs)

def prettyMembers (depth : Nat) : List (Text × Json) → Text
  | [] => ""
  | (k, x) :: ms =>
    "," ++ newline depth ++ (quoted k ++ ": " ++ (prettyAt depth x ++ prettyMembers depth ms))

end

/-- The text of a value over several lines. -/
def pretty (v : Json) : Text := prettyAt 0 v

mutual

/-- The text of a value on one line. -/
def compact : Json → Text
  | .arr xs => "[" ++ Text.join "," (compactItems xs) ++ "]"
  | .obj ms => "\x7b" ++ Text.join "," (compactMembers ms) ++ "\x7d"
  | v => word v

def compactItems : List Json → List Text
  | [] => []
  | x :: xs => compact x :: compactItems xs

def compactMembers : List (Text × Json) → List Text
  | [] => []
  | (k, x) :: ms => (quoted k ++ ":" ++ compact x) :: compactMembers ms

end

end Json

end ResourceApi
