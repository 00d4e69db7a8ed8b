import ResourceApi.Yaml.Glyph
import ResourceApi.Yaml.Lexeme

/-!
# Block scalars

A block scalar is the lines after a bar or an angle that are indented far enough. After a bar line
ends are kept; after an angle they are folded, except next to lines that begin with a blank. The
header may fix the indentation, and says what becomes of the line ends at the scalar's end.
-/

namespace ResourceApi.Yaml

namespace Block

/-- What becomes of the line ends at the end: all go, one stays, or all stay. -/
inductive Chomp where
  | strip | clip | keep
  deriving Repr, DecidableEq

/-- What the header says. -/
structure Header where
  chomp : Chomp
  increment : Option Nat

def chomp? : Char → Option Chomp
  | '+' => some .keep
  | '-' => some .strip
  | _ => none

def increment? (c : Char) : Option Nat := if c.isDigit then some (c.toNat - '0'.toNat) else none

/-- A chomping mark at the front. -/
def takeChomp (gs : List Glyph) : Chomp × List Glyph :=
  match gs with
  | g :: rest =>
    match chomp? g.char with
    | some c => (c, rest)
    | none => (.clip, gs)
  | [] => (.clip, [])

/-- An increment at the front; zero is none. -/
def takeIncrement (gs : List Glyph) : Except Defect (Option Nat × List Glyph) :=
  match gs with
  | g :: rest =>
    match increment? g.char with
    | some 0 => .error .malformed
    | some n => .ok (some n, rest)
    | none => .ok (none, gs)
  | [] => .ok (none, [])

/-- The rest of a line that may hold blanks and a comment only. -/
def endLine (gs : List Glyph) : Except Defect (List Glyph) :=
  let gs := Glyph.skip (· = ' ') gs
  let gs := if Glyph.nextIs (· = '#') gs then Glyph.skip (!isBreak ·) gs else gs
  match gs with
  | [] => .ok []
  | g :: rest => if isBreak g.char then .ok rest else .error .malformed

/-- The header of a block scalar: its two marks in either order. -/
def header (gs : List Glyph) : Except Defect (Header × List Glyph) := do
  let (chomp, gs, increment) ←
    if Glyph.nextIs (fun c => (chomp? c).isSome) gs then do
      let (chomp, gs) := takeChomp gs
      let (increment, gs) ← takeIncrement gs
      pure (chomp, gs, increment)
    else do
      let (increment, gs) ← takeIncrement gs
      let (chomp, gs) := if increment.isSome then takeChomp gs else (.clip, gs)
      pure (chomp, gs, increment)
  if Glyph.endOr (fun c => c = ' ' || isBreak c) gs then
    return (⟨chomp, increment⟩, ← endLine gs)
  else throw .malformed

/-- The empty lines before the first line of text, and the greatest column that their blanks and
the blanks before the text reach. -/
def leading : List Char → Nat → List Glyph → List Char × Nat × List Glyph
  | breaks, column, [] => (breaks.reverse, column, [])
  | breaks, column, g :: rest =>
    if g.char = ' ' then leading breaks (max column (g.column + 1)) rest
    else if isBreak g.char then leading (breakText g.char :: breaks) column rest
    else (breaks.reverse, column, g :: rest)

/-- The empty lines before a line of text at an indentation. -/
def emptyLines (indent : Nat) : List Char → List Glyph → List Char × List Glyph
  | breaks, [] => (breaks.reverse, [])
  | breaks, g :: rest =>
    if g.char = ' ' && g.column < indent then emptyLines indent breaks rest
    else if isBreak g.char then emptyLines indent (breakText g.char :: breaks) rest
    else (breaks.reverse, g :: rest)

/-- Where the reading stands. -/
inductive Mode where
  /-- Inside a line, which begins with a blank or not. -/
  | inside (isText : Bool)
  /-- After a line end, and further ones in reverse. -/
  | between (isText : Bool) (first : Char) (more : List Char)
  deriving Repr

/-- The lines of a scalar, the line ends after its last line, and the rest of the text. -/
structure Result where
  text : List Char
  first : List Char
  more : List Char
  rest : List Glyph

def startsText (g : Glyph) : Bool := g.char != ' ' && g.char != '\t'

/-- What stands between two lines, in reverse. -/
def joint (isFolded isText : Bool) (first : Char) (more : List Char) (next : Glyph) : List Char :=
  if isFolded && first = '\n' && isText && startsText next then
    if more.isEmpty then [' '] else more
  else more ++ [first]

/-- Reads the lines of a scalar at an indentation. -/
def read (isFolded : Bool) (indent : Nat) : Mode → List Char → List Glyph → Result
  | .inside _, seen, [] => ⟨seen.reverse, [], [], []⟩
  | .between _ first more, seen, [] => ⟨seen.reverse, [first], more.reverse, []⟩
  | .inside isText, seen, g :: rest =>
    if isBreak g.char then read isFolded indent (.between isText (breakText g.char) []) seen rest
    else read isFolded indent (.inside isText) (g.char :: seen) rest
  | .between isText first more, seen, g :: rest =>
    if g.char = ' ' && g.column < indent then
      read isFolded indent (.between isText first more) seen rest
    else if isBreak g.char then
      read isFolded indent (.between isText first (breakText g.char :: more)) seen rest
    else if g.column = indent then
      read isFolded indent (.inside (startsText g))
        (g.char :: (joint isFolded isText first more g ++ seen)) rest
    else ⟨seen.reverse, [first], more.reverse, g :: rest⟩

/-- The text of a block scalar and what follows it; `outer` is the column that its lines must
stand beyond, counted from one. -/
def scalar (isFolded : Bool) (outer : Nat) (gs : List Glyph) :
    Except Defect (List Char × List Glyph) := do
  let (h, gs) ← header gs
  let least := max outer 1
  let (breaks, indent, gs) :=
    match h.increment with
    | none =>
      let (breaks, column, gs) := leading [] 0 gs
      (breaks, max least column, gs)
    | some n =>
      let indent := least + n - 1
      let (breaks, gs) := emptyLines indent [] gs
      (breaks, indent, gs)
  let result : Result :=
    match gs with
    | g :: _ =>
      if g.column = indent then read isFolded indent (.inside (startsText g)) breaks.reverse gs
      else ⟨[], [], breaks, gs⟩
    | [] => ⟨[], [], breaks, []⟩
  let tail :=
    match h.chomp with
    | .strip => []
    | .clip => result.first
    | .keep => result.first ++ result.more
  return (result.text ++ tail, result.rest)

end Block

end ResourceApi.Yaml
