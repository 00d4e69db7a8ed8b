import ResourceApi.Yaml.Glyph

/-!
# Unquoted scalars

An unquoted scalar goes on until a colon or a `#` that stands by a blank, until a bracket, comma or
question mark inside brackets, or until a line that is not indented far enough. Blanks between its
words are kept on a line; line ends between its lines are folded.
-/

namespace ResourceApi.Yaml

namespace Plain

/-- Characters that end an unquoted scalar inside brackets. -/
def flowMarks : List Char := [',', '?', '[', ']', '\x7b', '\x7d']

/-- Characters before which a colon ends an unquoted scalar inside brackets. -/
def colonMarks : List Char := [',', '[', ']', '\x7b', '\x7d']

/-- Does a character end a word, given what follows it? -/
def endsWord (inFlow : Bool) (c : Char) (rest : List Glyph) : Bool :=
  isSpace c ||
    (c = ':' && (Glyph.endOr isSpace rest || (inFlow && Glyph.nextIs colonMarks.contains rest))) ||
    (inFlow && flowMarks.contains c)

/-- Where the reading stands. -/
inductive Mode where
  | word
  | blanks (n : Nat)
  /-- After a line end, and further ones in reverse. -/
  | lines (first : Char) (more : List Char)
  deriving Repr

/-- An unquoted scalar, whether a line end after it was passed, and the rest of the text. -/
structure Result where
  text : List Char
  hasBreak : Bool
  rest : List Glyph

/-- Reads on from a place in a scalar whose further lines stand at a column or beyond. -/
def read (inFlow : Bool) (indent : Nat) : Mode → List Char → List Glyph → Result
  | .lines _ _, seen, [] => ⟨seen.reverse, true, []⟩
  | _, seen, [] => ⟨seen.reverse, false, []⟩
  | mode, seen, g :: rest =>
    let ends := endsWord inFlow g.char rest
    let resumes := !ends && g.char != '#' && (inFlow || indent ≤ g.column)
    match mode with
    | .word =>
      if !ends then read inFlow indent .word (g.char :: seen) rest
      else if g.char = ' ' then read inFlow indent (.blanks 1) seen rest
      else if isBreak g.char then
        if Glyph.isAnyMarker rest then ⟨seen.reverse, true, rest⟩
        else read inFlow indent (.lines (breakText g.char) []) seen rest
      else ⟨seen.reverse, false, g :: rest⟩
    | .blanks n =>
      if g.char = ' ' then read inFlow indent (.blanks (n + 1)) seen rest
      else if isBreak g.char then
        if Glyph.isAnyMarker rest then ⟨seen.reverse, true, rest⟩
        else read inFlow indent (.lines (breakText g.char) []) seen rest
      else if resumes then
        read inFlow indent .word (g.char :: (List.replicate n ' ' ++ seen)) rest
      else ⟨seen.reverse, false, g :: rest⟩
    | .lines first more =>
      if g.char = ' ' then read inFlow indent (.lines first more) seen rest
      else if isBreak g.char then
        if Glyph.isAnyMarker rest then ⟨seen.reverse, true, rest⟩
        else read inFlow indent (.lines first (breakText g.char :: more)) seen rest
      else if resumes then
        read inFlow indent .word (g.char :: ((folded first more).reverse ++ seen)) rest
      else ⟨seen.reverse, true, g :: rest⟩

end Plain

end ResourceApi.Yaml
