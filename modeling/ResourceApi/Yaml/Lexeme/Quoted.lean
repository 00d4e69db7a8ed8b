import ResourceApi.Text.Digit
import ResourceApi.Yaml.Glyph
import ResourceApi.Yaml.Lexeme

/-!
# Quoted scalars

A quoted scalar is read one character at a time after its opening quote. In single quotes a quote
is written twice; in double quotes a backslash begins an escape. In both, blanks at a line end are
dropped and line ends are folded, and no mark between documents may stand at the head of a line.
An escape can name half of a pair of code units; the halves of two escapes are not joined.
-/

namespace ResourceApi.Yaml

namespace Quoted

/-- Where the reading stands. -/
inductive Mode where
  | inside
  /-- After a quote inside single quotes. -/
  | quote
  /-- After blanks and tabs, kept in reverse. -/
  | blanks (run : List Char)
  /-- After a line end, none if it was escaped, and further ones in reverse. -/
  | lines (first : Option Char) (more : List Char)
  | escape
  /-- Inside an escape by code, with the digits still due. -/
  | code (due value : Nat)
  deriving Repr

/-- What a character does. -/
inductive Turn where
  | go (mode : Mode) (read : List CodePoint)
  /-- The character is the closing quote. -/
  | close (read : List CodePoint)
  /-- The character before was the closing quote. -/
  | closed (read : List CodePoint)
  | fail (d : Defect)

/-- Escapes of one letter. -/
def shortEscapes : List (Char × Char) := [
  ('0', '\x00'), ('a', '\x07'), ('b', '\x08'), ('t', '\t'), ('\t', '\t'), ('n', '\n'),
  ('v', '\x0b'), ('f', '\x0c'), ('r', '\r'), ('e', '\x1b'), (' ', ' '), ('"', '"'),
  ('\\', '\\'), ('/', '/'), ('N', '\x85'), ('_', '\xa0'), ('L', '\u2028'), ('P', '\u2029')]

/-- How many digits an escape by code has. -/
def codeLength? : Char → Option Nat
  | 'x' => some 2
  | 'u' => some 4
  | 'U' => some 8
  | _ => none

def hexValue? (c : Char) : Option Nat :=
  if '0' ≤ c ∧ c ≤ '9' then some (c.toNat - '0'.toNat)
  else if 'a' ≤ c ∧ c ≤ 'f' then some (c.toNat - 'a'.toNat + 10)
  else if 'A' ≤ c ∧ c ≤ 'F' then some (c.toNat - 'A'.toNat + 10)
  else none

/-- The code point of a code; a code beyond the last is a misfit. -/
def ofCode (n : Nat) : Except Defect CodePoint :=
  if n ≤ 0x10FFFF then .ok (CodePoint.ofCode n)
  else if n < 0x80000000 then .error (.misfit .notCharacter)
  else .error (.misfit .codeTooLarge)

/-- A character after text that is complete so far. -/
def ordinary (isDouble : Bool) (read : List CodePoint) (c : Char) : Turn :=
  if c = ' ' ∨ c = '\t' then .go (.blanks [c]) read
  else if isBreak c then .go (.lines (some (breakText c)) []) read
  else if isDouble then
    if c = '"' then .close read
    else if c = '\\' then .go .escape read
    else .go .inside (c :: read)
  else if c = '\'' then .go .quote read
  else .go .inside (c :: read)

/-- The text that line ends stand for, in reverse. -/
def foldedBack (first : Option Char) (more : List Char) : List CodePoint :=
  (match first with
  | some c => (folded c more).reverse
  | none => more).map .char

/-- One character. -/
def turn (isDouble : Bool) : Mode → List CodePoint → Char → Turn
  | .inside, read, c => ordinary isDouble read c
  | .quote, read, c => if c = '\'' then .go .inside (c :: read) else .closed read
  | .blanks run, read, c =>
    if c = ' ' ∨ c = '\t' then .go (.blanks (c :: run)) read
    else if isBreak c then .go (.lines (some (breakText c)) []) read
    else ordinary isDouble (run.map .char ++ read) c
  | .lines first more, read, c =>
    if c = ' ' ∨ c = '\t' then .go (.lines first more) read
    else if isBreak c then .go (.lines first (breakText c :: more)) read
    else ordinary isDouble (foldedBack first more ++ read) c
  | .escape, read, c =>
    if isBreak c then .go (.lines none []) read
    else
      match shortEscapes.lookup c, codeLength? c with
      | some d, _ => .go .inside (.char d :: read)
      | none, some due => .go (.code due 0) read
      | none, none => .fail .malformed
  | .code due value, read, c =>
    match hexValue? c with
    | none => .fail .malformed
    | some d =>
      if due = 1 then
        match ofCode (16 * value + d) with
        | .ok e => .go .inside (e :: read)
        | .error e => .fail e
      else .go (.code (due - 1) (16 * value + d)) read

/-- The text of a quoted scalar and what follows its closing quote. -/
def read (isDouble : Bool) : Mode → List CodePoint → List Glyph →
    Except Defect (Text × List Glyph)
  | .quote, read, [] => .ok (⟨read.reverse⟩, [])
  | _, _, [] => .error .malformed
  | mode, seen, g :: rest =>
    match turn isDouble mode seen g.char with
    | .go mode' seen' =>
      if isBreak g.char && Glyph.isAnyMarker rest then .error .malformed
      else read isDouble mode' seen' rest
    | .close seen' => .ok (⟨seen'.reverse⟩, rest)
    | .closed seen' => .ok (⟨seen'.reverse⟩, g :: rest)
    | .fail d => .error d

end Quoted

end ResourceApi.Yaml
