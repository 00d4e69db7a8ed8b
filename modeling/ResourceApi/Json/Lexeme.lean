import ResourceApi.Text

/-!
# The lexemes of a JSON text

A text is read one character at a time by a machine that stands between two lexemes or inside
one. Blanks separate; the punctuation marks are lexemes of their own; a quoted string is a lexeme
with its escapes resolved; every other run of characters is a word, to be read as a number or one
of the three names. Two escapes one after the other that name both halves of a pair of code units
stand for one character.
-/

namespace ResourceApi

namespace Json

/-- One lexeme. -/
inductive Lexeme where
  | openObj | closeObj | openArr | closeArr | colon | comma
  | text (s : Text)
  | word (cs : List Char)
  deriving Repr, DecidableEq

/-- Where a scan stands. Characters already read are kept in reverse. -/
inductive Scan where
  | between
  | word (read : List Char)
  | text (read : List CodePoint)
  | escape (read : List CodePoint)
  /-- Inside four hexadecimal digits. -/
  | code (read : List CodePoint) (seen : Nat) (value : Nat)

namespace Lexeme

def isBlank (c : Char) : Bool := c = ' ' || c = '\n' || c = '\r' || c = '\t'

def punctuation : Char → Option Lexeme
  | '\x7b' => some .openObj
  | '\x7d' => some .closeObj
  | '[' => some .openArr
  | ']' => some .closeArr
  | ':' => some .colon
  | ',' => some .comma
  | _ => none

def hexValue (c : Char) : Option Nat :=
  if '0' ≤ c ∧ c ≤ '9' then some (c.toNat - '0'.toNat)
  else if 'a' ≤ c ∧ c ≤ 'f' then some (c.toNat - 'a'.toNat + 10)
  else if 'A' ≤ c ∧ c ≤ 'F' then some (c.toNat - 'A'.toNat + 10)
  else none

/-- The character that a one-letter escape stands for. -/
def escaped : Char → Option Char
  | '"' => some '"'
  | '\\' => some '\\'
  | '/' => some '/'
  | 'b' => some '\x08'
  | 'f' => some '\x0c'
  | 'n' => some '\n'
  | 'r' => some '\r'
  | 't' => some '\t'
  | _ => none

/-- One character read between two lexemes. -/
def start (c : Char) : Scan × List Lexeme :=
  if isBlank c then (.between, [])
  else if c = '"' then (.text [], [])
  else
    match punctuation c with
    | some l => (.between, [l])
    | none => (.word [c], [])

/-- The text after a code, in reverse; the second half of a pair joins the first. -/
def addCode (value : Nat) : List CodePoint → List CodePoint
  | .half high :: read =>
    if high < 0x400 ∧ 0xDC00 ≤ value ∧ value < 0xE000 then
      .char (Char.ofNat (0x10000 + high * 0x400 + (value - 0xDC00))) :: read
    else CodePoint.ofCode value :: .half high :: read
  | read => CodePoint.ofCode value :: read

/-- One character: the next place and the lexemes that end here. -/
def step : Scan → Char → Option (Scan × List Lexeme)
  | .between, c => some (start c)
  | .word read, c =>
    if isBlank c || c = '"' || (punctuation c).isSome then
      let next := start c
      some (next.1, .word read.reverse :: next.2)
    else some (.word (c :: read), [])
  | .text read, c =>
    if c = '"' then some (.between, [.text ⟨read.reverse⟩])
    else if c = '\\' then some (.escape read, [])
    else if c.toNat < 0x20 then none
    else some (.text (c :: read), [])
  | .escape read, c =>
    if c = 'u' then some (.code read 0 0, [])
    else (escaped c).map fun d => (.text (d :: read), [])
  | .code read seen value, c =>
    (hexValue c).map fun d =>
      if seen = 3 then (.text (addCode (16 * value + d) read), [])
      else (.code read (seen + 1) (16 * value + d), [])

/-- The lexemes from a place to the end of the text, after those already found, which are kept
in reverse. -/
def scan : Scan → List Lexeme → List Char → Option (List Lexeme)
  | .between, found, [] => some found.reverse
  | .word read, found, [] => some (.word read.reverse :: found).reverse
  | _, _, [] => none
  | s, found, c :: cs =>
    match step s c with
    | none => none
    | some (s', ls) => scan s' (ls.reverse ++ found) cs

/-- The lexemes of a text; none when a string is malformed or left open. -/
def ofText (s : List Char) : Option (List Lexeme) := scan .between [] s

end Lexeme

end Json

end ResourceApi
