import ResourceApi.Yaml.Character

/-!
# Characters in place

Indentation carries meaning, so a text is read as its characters together with their places: how
many characters stand before, on which line, and at which column. A byte order mark takes up no
column.
-/

namespace ResourceApi.Yaml

/-- A character and its place. -/
structure Glyph where
  char : Char
  index : Nat
  line : Nat
  column : Nat
  deriving Repr

namespace Glyph

def byteOrderMark : Char := '\ufeff'

/-- The glyphs of a text that begins at a place. -/
def ofTextAt (index line column : Nat) : List Char → List Glyph
  | [] => []
  | c :: cs =>
    ⟨c, index, line, column⟩ ::
      if isBreak c then ofTextAt (index + 1) (line + 1) 0 cs
      else ofTextAt (index + 1) line (if c = byteOrderMark then column else column + 1) cs

/-- The glyphs of a text. -/
def ofText (cs : List Char) : List Glyph := ofTextAt 0 0 0 cs

/-- The characters of glyphs. -/
def text (gs : List Glyph) : List Char := gs.map Glyph.char

/-! ## What comes next -/

/-- Does the rest of the text begin with a character of a sort? -/
def nextIs (p : Char → Bool) : List Glyph → Bool
  | [] => false
  | g :: _ => p g.char

/-- Is the rest of the text empty, or does it begin with a character of a sort? -/
def endOr (p : Char → Bool) : List Glyph → Bool
  | [] => true
  | g :: _ => p g.char

/-- Does the rest of the text begin with a mark between documents? It is one of two characters,
three times, and then a blank, a line end or the end of the text. -/
def isMarker (mark : Char) : List Glyph → Bool
  | a :: b :: c :: rest => a.char = mark && b.char = mark && c.char = mark && endOr isSpace rest
  | _ => false

def isAnyMarker (gs : List Glyph) : Bool := isMarker '-' gs || isMarker '.' gs

/-- The rest of the text after its leading characters of a sort. -/
def skip (p : Char → Bool) (gs : List Glyph) : List Glyph := gs.dropWhile fun g => p g.char

/-- The leading characters of a sort and the rest of the text. -/
def span (p : Char → Bool) (gs : List Glyph) : List Char × List Glyph :=
  (text (gs.takeWhile fun g => p g.char), skip p gs)

end Glyph

/-- What a line end stands for inside a scalar: the two separators stand for themselves, any other
is a line feed. -/
def breakText (c : Char) : Char := if c = '\x85' then '\n' else c

/-- A line end after text and the further ones after it, read as text: a single line feed is a
blank, a line feed before further line ends is dropped, and all else is kept. The further line
ends stand in reverse. -/
def folded (first : Char) (more : List Char) : List Char :=
  if first ≠ '\n' then first :: more.reverse
  else if more.isEmpty then [' ']
  else more.reverse

end ResourceApi.Yaml
