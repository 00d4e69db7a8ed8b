import ResourceApi.Yaml.Glyph
import ResourceApi.Yaml.Lexeme
import ResourceApi.Yaml.Lexeme.Block
import ResourceApi.Yaml.Lexeme.Quoted

/-!
# Names, tags and directives

An anchor and an alias are a mark and a name. A tag is written whole in angles, or as a handle and
a suffix; characters of a tag may be written by their octets. A directive takes up its line.
-/

namespace ResourceApi.Yaml

namespace Lexeme

/-- May the character stand in the name of an anchor, a handle or a directive? -/
def isNameChar (c : Char) : Bool := c.isAlphanum || c = '-' || c = '_'

/-- Characters that may follow the name of an anchor, besides blanks and line ends. -/
def afterName : List Char := ['?', ':', ',', ']', '\x7d', '%', '@', '\x60']

/-- The name after the mark of an anchor or alias. -/
def name? (gs : List Glyph) : Except Defect (List Char × List Glyph) :=
  let (name, rest) := Glyph.span isNameChar gs
  if name ≠ [] ∧ Glyph.endOr (fun c => isSpace c || afterName.contains c) rest then .ok (name, rest)
  else .error .malformed

/-! ## Tags -/

/-- Marks that may stand in a tag, besides letters and digits. -/
def tagMarks : List Char :=
  ['-', ';', '/', '?', ':', '@', '&', '=', '+', '$', ',', '_', '.', '!', '~', '*', '\'', '(', ')',
    '[', ']', '%']

def isTagChar (c : Char) : Bool := c.isAlphanum || tagMarks.contains c

/-- The text of a list of octets. -/
def ofOctets? (octets : List Nat) : Option (List Char) :=
  (String.fromUTF8? ⟨(octets.map Nat.toUInt8).toArray⟩).map String.toList

/-- The text of a tag with its octets, kept in reverse, resolved. -/
def octetText? (octets : List Nat) : Option (List Char) :=
  if octets.isEmpty then some [] else ofOctets? octets.reverse

/-- The characters of a tag at the front and the rest, with octets resolved; `octets` are those
just read, in reverse. -/
def tagText (octets : List Nat) : List Glyph → Except Defect (List Char × List Glyph)
  | [] =>
    match octetText? octets with
    | some cs => .ok (cs, [])
    | none => .error .malformed
  | p :: rest =>
    if p.char = '%' then
      match rest with
      | h :: l :: rest =>
        match Quoted.hexValue? h.char, Quoted.hexValue? l.char with
        | some a, some b => tagText ((16 * a + b) :: octets) rest
        | _, _ => .error .malformed
      | _ => .error .malformed
    else
      match octetText? octets with
      | none => .error .malformed
      | some cs =>
        if isTagChar p.char then do
          let (ds, rest) ← tagText [] rest
          return (cs ++ p.char :: ds, rest)
        else .ok (cs, p :: rest)

/-- The characters of a tag, at least one. -/
def tagSuffix (gs : List Glyph) : Except Defect (List Char × List Glyph) :=
  if Glyph.nextIs isTagChar gs then tagText [] gs else .error .malformed

/-- A handle: an exclamation mark alone, or a name between two. -/
def tagHandle : List Glyph → Except Defect (List Char × List Glyph)
  | g :: rest =>
    if g.char ≠ '!' then .error .malformed
    else if Glyph.nextIs (· = ' ') rest then .ok (['!'], rest)
    else
      match Glyph.span isNameChar rest with
      | (name, h :: rest) =>
        if h.char = '!' then .ok ('!' :: (name ++ ['!']), rest) else .error .malformed
      | _ => .error .malformed
  | [] => .error .malformed

def isBlankOrBreak (c : Char) : Bool := c = ' ' || isBreak c

/-- Does a second exclamation mark come before the next blank? -/
def hasHandle (gs : List Glyph) : Bool :=
  Glyph.nextIs (· = '!') (Glyph.skip (fun c => c != '!' && !isBlankOrBreak c) gs)

/-- A tag, at its exclamation mark. -/
def tag? : List Glyph → Except Defect (Lexeme × List Glyph)
  | [] => .error .malformed
  | mark :: gs => do
    let (lexeme, rest) ←
      if Glyph.nextIs (· = '<') gs then do
        let (suffix, rest) ← tagSuffix gs.tail
        match rest with
        | g :: rest =>
          if g.char = '>' then pure (Lexeme.tag none suffix, rest) else throw .malformed
        | [] => throw .malformed
      else if Glyph.endOr isSpace gs then pure (Lexeme.tag none ['!'], gs)
      else do
        let (handle, rest) ←
          if hasHandle gs then tagHandle (mark :: gs) else pure (['!'], gs)
        let (suffix, rest) ← tagSuffix rest
        pure (Lexeme.tag (some handle) suffix, rest)
    if Glyph.endOr isBlankOrBreak rest then return (lexeme, rest) else throw .malformed

/-! ## Directives -/

/-- The value of a run of decimal digits at the front, at least one. -/
def number? (gs : List Glyph) : Except Defect (Nat × List Glyph) :=
  let (ds, rest) := Glyph.span Char.isDigit gs
  if ds.isEmpty then .error .malformed
  else
    match Text.readNat? (ds.map .char) with
    | some n => .ok (n, rest)
    | none => .error (.misfit .notNumber)

/-- The numbers of a version. -/
def version? (gs : List Glyph) : Except Defect (Directive × List Glyph) := do
  let (major, gs) ← number? (Glyph.skip (· = ' ') gs)
  match gs with
  | g :: gs =>
    if g.char ≠ '.' then throw .malformed
    let (_, gs) ← number? gs
    if Glyph.endOr isBlankOrBreak gs then return (.version major, gs) else throw .malformed
  | [] => throw .malformed

/-- A handle and what it stands for. -/
def handle? (gs : List Glyph) : Except Defect (Directive × List Glyph) := do
  let (name, gs) ← tagHandle (Glyph.skip (· = ' ') gs)
  if !Glyph.nextIs (· = ' ') gs then throw .malformed
  let (expansion, gs) ← tagSuffix (Glyph.skip (· = ' ') gs)
  if Glyph.endOr isBlankOrBreak gs then return (.handle name expansion, gs) else throw .malformed

/-- A directive after its percent sign, with its line. -/
def directive? (gs : List Glyph) : Except Defect (Lexeme × List Glyph) := do
  let (name, gs) := Glyph.span isNameChar gs
  if name.isEmpty || !Glyph.endOr isBlankOrBreak gs then throw .malformed
  let (d, gs) ←
    match String.ofList name with
    | "YAML" => version? gs
    | "TAG" => handle? gs
    | _ => pure (.reserved, Glyph.skip (!isBreak ·) gs)
  return (.directive d, ← Block.endLine gs)

end Lexeme

end ResourceApi.Yaml
