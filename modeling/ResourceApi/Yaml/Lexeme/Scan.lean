import ResourceApi.Yaml.Lexeme.Plain
import ResourceApi.Yaml.Lexeme.Tag

/-!
# Cutting a text into lexemes

Between two lexemes stand blanks, comments and line ends. Outside brackets the column of a lexeme
decides which blocks end before it; a dash, a question mark or a key beyond the innermost block
opens a new one. Whether a scalar (or anything else that stands on one line) is a key shows only at
the colon after it. So the scan remembers, for each open bracket and for the text outside, the last
place where a key may have begun, and puts the key's mark there when the colon comes.

A text can turn out to have no further lexeme. The lexemes before that place still count, up to the
first possible key that is open there: their structure may be wrong in its own right.
-/

namespace ResourceApi.Yaml

/-- A place where a key may have begun. -/
structure PossibleKey where
  /-- How many lexemes stand before it. -/
  place : Nat
  index : Nat
  line : Nat
  column : Nat
  /-- Nothing but a key can stand here. -/
  isRequired : Bool
  deriving Repr

/-- The state of a scan between two lexemes. -/
structure Scan where
  /-- The columns of the open blocks, innermost first. -/
  blocks : List Nat := []
  /-- The possible key inside the innermost bracket. -/
  key : Option PossibleKey := none
  /-- The possible keys further out, one for each open bracket. -/
  outer : List (Option PossibleKey) := []
  /-- May a key begin here? -/
  allowsKey : Bool := true
  /-- The lexemes found, in reverse. -/
  found : List Lexeme := []
  deriving Repr

namespace Scan

/-- Is a bracket open? -/
def inFlow (s : Scan) : Bool := !s.outer.isEmpty

def emit (s : Scan) (l : Lexeme) : Scan := { s with found := l :: s.found }

/-- Puts lexemes, given in reverse, where some number of lexemes stand before them. -/
def insertAt (place : Nat) (ls found : List Lexeme) : List Lexeme :=
  let after := found.length - place
  found.take after ++ (ls ++ found.drop after)

/-! ## Blocks -/

/-- Ends the blocks that stand beyond a column. -/
def closeBeyond (column : Nat) : List Nat → List Lexeme → List Nat × List Lexeme
  | [], found => ([], found)
  | b :: bs, found =>
    if column < b then closeBeyond column bs (.blockEnd :: found) else (b :: bs, found)

/-- Ends the blocks that stand beyond a column; inside brackets none ends. -/
def unwind (s : Scan) (column : Nat) : Scan :=
  if s.inFlow then s
  else
    let (blocks, found) := closeBeyond column s.blocks s.found
    { s with blocks, found }

/-- Ends all blocks. -/
def unwindAll (s : Scan) : Scan :=
  if s.inFlow then s
  else { s with blocks := [], found := s.blocks.map (fun _ => Lexeme.blockEnd) ++ s.found }

/-- Does a column lie beyond the innermost block? -/
def isBeyond (s : Scan) (column : Nat) : Bool :=
  match s.blocks with
  | [] => true
  | b :: _ => b < column

/-- Opens a block at a column beyond the innermost one. -/
def openBlock (s : Scan) (l : Lexeme) (column : Nat) : Scan :=
  if s.isBeyond column then { s with blocks := column :: s.blocks, found := l :: s.found } else s

/-! ## Possible keys -/

/-- How far a key's colon may stand from its beginning. -/
def keyReach : Nat := 1024

/-- A possible key is dropped when its line or its reach has passed; a required one must not be. -/
def refresh (g : Glyph) : Option PossibleKey → Except Defect (Option PossibleKey)
  | none => .ok none
  | some k =>
    if k.line ≠ g.line ∨ keyReach < g.index - k.index then
      if k.isRequired then .error .malformed else .ok none
    else .ok (some k)

/-- Forgets the possible key inside the innermost bracket. -/
def dropKey (s : Scan) : Except Defect Scan :=
  match s.key with
  | some k => if k.isRequired then .error .malformed else .ok { s with key := none }
  | none => .ok s

/-- Notes that a key may begin at a glyph, if one is allowed here. -/
def noteKey (s : Scan) (g : Glyph) : Except Defect Scan :=
  if s.allowsKey then do
    let s ← s.dropKey
    let isRequired := !s.inFlow && s.blocks.head? == some g.column
    return { s with key := some ⟨s.found.length, g.index, g.line, g.column, isRequired⟩ }
  else .ok s

/-! ## Single lexemes -/

/-- A mark between documents. -/
def documentMark (s : Scan) (l : Lexeme) : Except Defect Scan := do
  let s ← s.unwindAll.dropKey
  return { s with allowsKey := false }.emit l

def openBracket (s : Scan) (g : Glyph) (l : Lexeme) : Except Defect Scan := do
  let s ← s.noteKey g
  return { s with key := none, outer := s.key :: s.outer, allowsKey := true }.emit l

/-- A closing bracket; it must close something. -/
def closeBracket (s : Scan) (l : Lexeme) : Except Defect Scan := do
  let s ← s.dropKey
  match s.outer with
  | key :: outer => return { s with key, outer, allowsKey := false }.emit l
  | [] => throw .malformed

def comma (s : Scan) : Except Defect Scan := do
  let s ← s.dropKey
  return { s with allowsKey := true }.emit .comma

def dash (s : Scan) (g : Glyph) : Except Defect Scan := do
  if !s.inFlow && !s.allowsKey then throw .malformed
  let s := if s.inFlow then s else s.openBlock .blockList g.column
  let s ← s.dropKey
  return { s with allowsKey := true }.emit .dash

def questionMark (s : Scan) (g : Glyph) : Except Defect Scan := do
  if !s.inFlow && !s.allowsKey then throw .malformed
  let s := if s.inFlow then s else s.openBlock .blockMap g.column
  let s ← { s with allowsKey := !s.inFlow }.dropKey
  return s.emit .key

/-- A colon: after a possible key it shows that this is one. -/
def colon (s : Scan) (g : Glyph) : Except Defect Scan :=
  match s.key with
  | some k =>
    let opens := !s.inFlow && s.isBeyond k.column
    let marks := if opens then [Lexeme.key, .blockMap] else [.key]
    let blocks := if opens then k.column :: s.blocks else s.blocks
    let found := insertAt k.place marks s.found
    .ok ({ s with blocks, found, key := none, allowsKey := false }.emit .colon)
  | none => do
    if !s.inFlow && !s.allowsKey then throw .malformed
    let s := if s.inFlow then s else s.openBlock .blockMap g.column
    return { s with allowsKey := !s.inFlow }.emit .colon

/-- A lexeme that may be a key. -/
def keyLike (s : Scan) (g : Glyph) (r : Except Defect (Lexeme × List Glyph)) :
    Except Defect (Scan × List Glyph) := do
  let s ← s.noteKey g
  let (l, rest) ← r
  return ({ s with allowsKey := false }.emit l, rest)

def named {α : Type} (l : α → Lexeme) (r : Except Defect (α × List Glyph)) :
    Except Defect (Lexeme × List Glyph) := r.map fun (name, rest) => (l name, rest)

/-- An unquoted scalar; a key may follow one that ends at a line end. -/
def plain (s : Scan) (g : Glyph) (gs : List Glyph) : Except Defect (Scan × List Glyph) := do
  let s ← s.noteKey g
  let indent := match s.blocks with | [] => 0 | b :: _ => b + 1
  let r := Plain.read s.inFlow indent .word [] gs
  return ({ s with allowsKey := r.hasBreak }.emit (.scalar (Text.ofChars r.text) true), r.rest)

/-- A block scalar, after its mark. -/
def blockScalar (s : Scan) (isFolded : Bool) (gs : List Glyph) :
    Except Defect (Scan × List Glyph) := do
  let s ← { s with allowsKey := true }.dropKey
  let outer := match s.blocks with | [] => 0 | b :: _ => b + 1
  let (text, rest) ← Block.scalar isFolded outer gs
  return (s.emit (.scalar (Text.ofChars text) false), rest)

/-- Characters that no unquoted scalar begins with. -/
def indicators : List Char :=
  ['-', '?', ':', ',', '[', ']', '\x7b', '\x7d', '#', '&', '*', '!', '|', '>', '\'', '"', '%', '@',
    '\x60']

/-- Does an unquoted scalar begin here? -/
def startsPlain (inFlow : Bool) (c : Char) (rest : List Glyph) : Bool :=
  (!isSpace c && !indicators.contains c) ||
    (!Glyph.endOr isSpace rest && (c = '-' || (!inFlow && (c = '?' || c = ':'))))

/-- One lexeme at a glyph: the state after it and the rest of the text. -/
def lexeme (s : Scan) (g : Glyph) (rest : List Glyph) : Except Defect (Scan × List Glyph) :=
  let c := g.char
  let stays (r : Except Defect Scan) : Except Defect (Scan × List Glyph) :=
    r.map fun s => (s, rest)
  let starts := Glyph.endOr isSpace rest
  if c = '%' ∧ g.column = 0 then do
    let (l, rest) ← Lexeme.directive? rest
    return (← s.documentMark l, rest)
  else if g.column = 0 ∧ Glyph.isMarker '-' (g :: rest) then do
    return (← s.documentMark .documentStart, rest.drop 2)
  else if g.column = 0 ∧ Glyph.isMarker '.' (g :: rest) then do
    return (← s.documentMark .documentEnd, rest.drop 2)
  else if c = '[' then stays (s.openBracket g .flowList)
  else if c = '\x7b' then stays (s.openBracket g .flowMap)
  else if c = ']' then stays (s.closeBracket .flowListEnd)
  else if c = '\x7d' then stays (s.closeBracket .flowMapEnd)
  else if c = ',' then stays s.comma
  else if c = '-' ∧ starts then stays (s.dash g)
  else if c = '?' ∧ (s.inFlow ∨ starts) then stays (s.questionMark g)
  else if c = ':' ∧ (s.inFlow ∨ starts) then stays (s.colon g)
  else if c = '*' then s.keyLike g (named .alias (Lexeme.name? rest))
  else if c = '&' then s.keyLike g (named .anchor (Lexeme.name? rest))
  else if c = '!' then s.keyLike g (Lexeme.tag? (g :: rest))
  else if c = '|' ∧ !s.inFlow then s.blockScalar false rest
  else if c = '>' ∧ !s.inFlow then s.blockScalar true rest
  else if c = '\'' then s.keyLike g (named (.scalar · false) (Quoted.read false .inside [] rest))
  else if c = '"' then s.keyLike g (named (.scalar · false) (Quoted.read true .inside [] rest))
  else if startsPlain s.inFlow c rest then s.plain g (g :: rest)
  else .error .malformed

/-! ## Whole texts -/

/-- The rest of the text from the next lexeme on; outside brackets a key may begin on a new
line. -/
def toLexeme (inFlow : Bool) : Bool → Bool → List Glyph → Bool × List Glyph
  | _, allowsKey, [] => (allowsKey, [])
  | inComment, allowsKey, g :: rest =>
    if isBreak g.char then toLexeme inFlow false (allowsKey || !inFlow) rest
    else if inComment then toLexeme inFlow true allowsKey rest
    else if g.char = ' ' then toLexeme inFlow false allowsKey rest
    else if g.char = '#' then toLexeme inFlow true allowsKey rest
    else (allowsKey, g :: rest)

/-- The end of a text. -/
def finish (s : Scan) : Except Defect (List Lexeme) := do
  if s.key.any (·.isRequired) || s.outer.any (·.any (·.isRequired)) then throw .malformed
  return s.unwindAll.found.reverse

/-- The lexeme at a glyph, once the possible keys and open blocks that end before it are gone. -/
def next (s : Scan) (g : Glyph) (rest : List Glyph) : Except Defect (Scan × List Glyph) := do
  let key ← refresh g s.key
  let outer ← s.outer.mapM (refresh g)
  ({ s with key, outer }.unwind g.column).lexeme g rest

/-- Is the rest of a text still within reach of a possible key? -/
def reaches (k : PossibleKey) : List Glyph → Bool
  | [] => true
  | g :: _ => k.line == g.line && g.index - k.index ≤ keyReach

/-- The lexemes before every possible key that the rest of the text may still show to be one. -/
def settled (s : Scan) (gs : List Glyph) : List Lexeme :=
  let keys := ((s.key :: s.outer).filterMap id).filter (reaches · gs)
  s.found.reverse.take ((keys.map (·.place)).foldl min s.found.length)

end Scan

/-- The lexemes of a text, and why there are no more of them if that is not its end. -/
structure Scanned where
  lexemes : List Lexeme
  defect : Option Defect := none
  deriving Repr

namespace Scan

/-- The lexemes of the rest of a text, in at most so many steps. -/
def run : Nat → Scan → List Glyph → Scanned
  | 0, s, _ => ⟨s.found.reverse, some .malformed⟩
  | fuel + 1, s, gs =>
    let (allowsKey, ahead) := toLexeme s.inFlow false s.allowsKey gs
    match ahead with
    | [] =>
      match s.finish with
      | .ok lexemes => ⟨lexemes, none⟩
      | .error d => ⟨s.settled gs, some d⟩
    | g :: rest =>
      match { s with allowsKey }.next g rest with
      | .ok (s', rest) => run fuel s' rest
      | .error d => ⟨s.settled gs, some d⟩

end Scan

/-- The lexemes of a text; a byte order mark at its head does not count. -/
def Scanned.ofText (cs : List Char) : Scanned :=
  let gs := Glyph.ofText cs
  let gs := if Glyph.nextIs (· = Glyph.byteOrderMark) gs then gs.tail else gs
  Scan.run (gs.length + 1) {} gs

end ResourceApi.Yaml
