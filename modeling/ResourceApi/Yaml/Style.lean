import ResourceApi.Text.Quoted
import ResourceApi.Yaml.Character
import ResourceApi.Yaml.Kind

/-!
# Written scalars

A text is written without quotes where that reads back as the same text, in single quotes where
they suffice, and in double quotes, with escapes, otherwise. A long text goes on over several
lines: once a line has passed the last column, it ends at the next single blank (or, inside double
quotes, after the next escape), and the text goes on at the indentation of the scalar. Half of a
pair of code units is always escaped, so what is written are characters.
-/

namespace ResourceApi.Yaml

/-- A text with the way it is written. -/
inductive Style where
  | plain (cs : List Char)
  | single (cs : List Char)
  | double (cs : List CodePoint)
  deriving DecidableEq, Repr

namespace Style

/-- Characters that no unquoted scalar begins with. -/
def indicators : List Char :=
  ['#', ',', '[', ']', '\x7b', '\x7d', '&', '*', '!', '|', '>', '\'', '"', '%', '@', '\x60']

/-- Does the text begin with one of the marks between documents? -/
def beginsWithMarker : List Char → Bool
  | a :: b :: c :: _ => a = b && b = c && (a = '-' || a = '.')
  | _ => false

/-- Is the first character one that begins something else? -/
def beginsWithIndicator : List Char → Bool
  | [] => false
  | c :: rest =>
    indicators.contains c ||
      ((c = '?' || c = '-') && (match rest with | [] => true | d :: _ => isSpace d))

/-- Does the text hold a colon before a blank or at its end, or a `#` after a blank? -/
def holdsIndicator : List Char → Bool
  | [] => false
  | [c] => c = ':'
  | c :: d :: rest => (c = ':' && isSpace d) || (isSpace c && d = '#') || holdsIndicator (d :: rest)

/-- Does a blank stand next to a line end? -/
def hasBlankAtBreak : List Char → Bool
  | c :: d :: rest =>
    (c = ' ' && isBreak d) || (isBreak c && d = ' ') || hasBlankAtBreak (d :: rest)
  | _ => false

/-- May the text stand without quotes, as far as its characters go? -/
def fitsPlain (cs : List Char) : Bool :=
  !beginsWithMarker cs && !beginsWithIndicator cs && !holdsIndicator cs &&
    cs.head? != some ' ' && cs.getLast? != some ' ' && cs.all (fun c => isShown c && !isBreak c)

/-- May the text stand in single quotes? -/
def fitsSingle (cs : List Char) : Bool := cs.all isShown && !hasBlankAtBreak cs

/-- The style that characters are written in. -/
def ofChars (cs : List Char) : Style :=
  if Kind.ofChars cs = .text ∧ fitsPlain cs then .plain cs
  else if fitsSingle cs then .single cs
  else .double (cs.map .char)

/-- The style that a text is written in. -/
def ofText (t : Text) : Style :=
  match t.chars? with
  | some cs => ofChars cs
  | none => .double t.points

/-! ## Lines -/

/-- The last column of a line. -/
def lastColumn : Nat := 80

def newline (indent : Nat) : List Char := '\n' :: List.replicate indent ' '

/-- A maximal run of characters of one sort. -/
inductive Run where
  | word (cs : List Char)
  | blanks (n : Nat)
  | breaks (cs : List Char)
  deriving Repr

namespace Run

/-- A character before the runs of a text: it joins the first run when it is of the same sort. -/
def cons (c : Char) (runs : List Run) : List Run :=
  if c = ' ' then
    match runs with
    | .blanks n :: rs => .blanks (n + 1) :: rs
    | rs => .blanks 1 :: rs
  else if isBreak c then
    match runs with
    | .breaks cs :: rs => .breaks (c :: cs) :: rs
    | rs => .breaks [c] :: rs
  else
    match runs with
    | .word cs :: rs => .word (c :: cs) :: rs
    | rs => .word [c] :: rs

/-- The runs of a text. -/
def ofText (cs : List Char) : List Run := cs.foldr cons []

end Run

/-- A word as it stands without quotes, or inside single quotes, which write a quote twice. -/
def word (isQuoted : Bool) (cs : List Char) : List Char :=
  if isQuoted then cs.flatMap fun c => if c = '\'' then ['\'', '\''] else [c] else cs

/-- Lines of runs that begin at a column. A single blank between two words is written as a line
end once the first word has passed the last column; a line feed is written twice at the head of a
run of line ends, so that it is read as one. -/
def wrap (isQuoted : Bool) (indent : Nat) : Nat → List Run → List Char
  | _, [] => []
  | column, .word cs :: .blanks 1 :: run :: runs =>
    let after := column + (word isQuoted cs).length
    word isQuoted cs ++
      if lastColumn < after then newline indent ++ wrap isQuoted indent indent (run :: runs)
      else ' ' :: wrap isQuoted indent (after + 1) (run :: runs)
  | column, .word cs :: runs =>
    word isQuoted cs ++ wrap isQuoted indent (column + (word isQuoted cs).length) runs
  | column, .blanks n :: runs =>
    List.replicate n ' ' ++ wrap isQuoted indent (column + n) runs
  | _, .breaks cs :: runs =>
    (if cs.head? = some '\n' then ['\n'] else []) ++
      (cs ++ (List.replicate indent ' ' ++ wrap isQuoted indent indent runs))

/-! ## Double quotes -/

/-- Escapes of one letter. -/
def shortEscapes : List (Char × Char) := [
  ('\x00', '0'), ('\x07', 'a'), ('\x08', 'b'), ('\t', 't'), ('\n', 'n'), ('\x0b', 'v'),
  ('\x0c', 'f'), ('\r', 'r'), ('\x1b', 'e'), ('"', '"'), ('\\', '\\'), ('\x85', 'N'),
  ('\xa0', '_'), ('\u2028', 'L'), ('\u2029', 'P')]

/-- The character that stands for itself inside double quotes. -/
def bare? : CodePoint → Option Char
  | .char c => if isShownInQuotes c then some c else none
  | .half _ => none

/-- The escape of a code point inside double quotes. -/
def escape (c : CodePoint) : List Char :=
  match c.char?.bind fun c => shortEscapes.lookup c with
  | some d => ['\\', d]
  | none => (Text.codeEscape c.code).map fun d => if 'a' ≤ d ∧ d ≤ 'f' then d.toUpper else d

/-- A code point inside double quotes. -/
def inQuotes (c : CodePoint) : List Char :=
  match bare? c with
  | some c => [c]
  | none => escape c

def beginsWithBlank (cs : List CodePoint) : Bool := cs.head? == some (.char ' ')

/-- A line end inside double quotes; a blank after it is escaped so that it is kept. -/
def continuation (indent : Nat) (rest : List CodePoint) : List Char :=
  '\\' :: (newline indent ++ if beginsWithBlank rest then ['\\'] else [])

/-- The column where the text goes on after a line end. -/
def continued (indent : Nat) (rest : List CodePoint) : Nat :=
  if beginsWithBlank rest then indent + 1 else indent

/-- Lines of a text inside double quotes. `isFirst` holds before its first character, `isFresh`
after an escape or a line end. -/
def wrapEscaped (indent : Nat) : Bool → Bool → Nat → List CodePoint → List Char
  | _, _, _, [] => []
  | isFirst, isFresh, column, p :: rest =>
    let isInner := !isFirst && !rest.isEmpty
    match bare? p with
    | some c =>
      if isInner && (c = ' ' || isFresh) && lastColumn < column then
        continuation indent (p :: rest) ++
          c :: wrapEscaped indent false false (continued indent (p :: rest) + 1) rest
      else c :: wrapEscaped indent false false (column + 1) rest
    | none =>
      let after := column + (escape p).length
      if isInner && lastColumn + 1 < after then
        escape p ++ (continuation indent rest ++
          wrapEscaped indent false true (continued indent rest) rest)
      else escape p ++ wrapEscaped indent false true after rest

/-! ## Scalars -/

/-- A text that begins at a column and goes on at an indentation. -/
def lines (t : Text) (indent column : Nat) : List Char :=
  match ofText t with
  | .plain cs => wrap false indent column (Run.ofText cs)
  | .single cs => '\'' :: (wrap true indent (column + 1) (Run.ofText cs) ++ ['\''])
  | .double cs => '"' :: (wrapEscaped indent true false (column + 1) cs ++ ['"'])

/-- A text on one line. -/
def line (t : Text) : List Char :=
  match ofText t with
  | .plain cs => cs
  | .single cs => '\'' :: (word true cs ++ ['\''])
  | .double cs => '"' :: (cs.flatMap inQuotes ++ ['"'])

end Style

end ResourceApi.Yaml
