import ResourceApi.Text.Blank
import ResourceApi.Yaml.Timestamp

/-!
# The kind of an unquoted scalar

An unquoted scalar is text unless its spelling makes it something else: nothing at all, a truth
value, a whole number, a number with a point, a timestamp, or a mark. A line feed at the end does
not count, except where it is all there is. The same rule serves reading and writing: a text is
written without quotes only if it is of kind `text`.
-/

namespace ResourceApi.Yaml

/-- What an unquoted scalar stands for. -/
inductive Kind where
  | null | truth | integer | real | moment
  /-- The mark of a key whose value is merged into the map. -/
  | merge
  /-- The mark of a map's own value. -/
  | own
  /-- A mark that no unquoted scalar begins with. -/
  | reserved
  | text
  deriving DecidableEq, Repr

namespace Kind

/-! ## Words -/

def nullWords : List String := ["", "~", "null", "Null", "NULL"]

def truthWords : List String := [
  "yes", "Yes", "YES", "no", "No", "NO", "true", "True", "TRUE", "false", "False", "FALSE", "on",
  "On", "ON", "off", "Off", "OFF"]

/-! ## Numbers -/

/-- The text after a sign. -/
def unsigned : List Char → List Char
  | '-' :: cs => cs
  | '+' :: cs => cs
  | cs => cs

/-- A digit, or the mark between groups of digits. -/
def isGrouped (isDigit : Char → Bool) (c : Char) : Bool := isDigit c || c = '_'

/-- A digit, then digits and marks. -/
def isCount : List Char → Bool
  | [] => false
  | d :: ds => d.isDigit && ds.all (isGrouped Char.isDigit)

/-- One digit, or two that stay below sixty. -/
def isSixtieth : List Char → Bool
  | [d] => d.isDigit
  | [t, d] => '0' ≤ t && t ≤ '5' && d.isDigit
  | _ => false

/-- A count and parts in base sixty, at least one, after colons. -/
def isClock (cs : List Char) : Bool :=
  match Text.splitOn ':' cs with
  | whole :: part :: parts => isCount whole && (part :: parts).all isSixtieth
  | _ => false

def isBinaryDigit (c : Char) : Bool := c = '0' || c = '1'

def isOctalDigit (c : Char) : Bool := '0' ≤ c && c ≤ '7'

def isHexDigit (c : Char) : Bool :=
  c.isDigit || ('a' ≤ c && c ≤ 'f') || ('A' ≤ c && c ≤ 'F')

/-- A whole number in base two, sixteen, eight, ten or sixty. -/
def isInteger (cs : List Char) : Bool :=
  match unsigned cs with
  | '0' :: 'b' :: ds => !ds.isEmpty && ds.all (isGrouped isBinaryDigit)
  | '0' :: 'x' :: ds => !ds.isEmpty && ds.all (isGrouped isHexDigit)
  | '0' :: ds => ds.all (isGrouped isOctalDigit)
  | ds => isCount ds || isClock ds

/-- Nothing, or an exponent with its sign. -/
def isExponent : List Char → Bool
  | [] => true
  | e :: s :: ds =>
    (e = 'e' || e = 'E') && (s = '+' || s = '-') && !ds.isEmpty && ds.all Char.isDigit
  | _ => false

def infinityWords : List String := ["inf", "Inf", "INF"]

def nanWords : List String := ["nan", "NaN", "NAN"]

/-- A number with a point: digits before it, or none and no sign; an exponent after the fraction;
parts in base sixty before the point; or a name after it. -/
def isReal (cs : List Char) : Bool :=
  let bare := unsigned cs
  let whole := bare.takeWhile (· != '.')
  match bare.dropWhile (· != '.') with
  | '.' :: rest =>
    let tail := rest.dropWhile (isGrouped Char.isDigit)
    if whole.isEmpty then
      infinityWords.contains (String.ofList rest) ||
        (bare == cs && (nanWords.contains (String.ofList rest) ||
          (isCount (rest.takeWhile (isGrouped Char.isDigit)) && isExponent tail)))
    else (isCount whole && isExponent tail) || (isClock whole && tail.isEmpty)
  | _ => false

/-- A timestamp; a date alone has two digits for month and day. -/
def isMoment (cs : List Char) : Bool :=
  match Timestamp.read? cs with
  | some t => t.time.isSome || t.isPadded
  | none => false

/-- The marks that no unquoted scalar begins with. -/
def reservedWords : List String := ["!", "&", "*"]

/-- The kind of an unquoted scalar without a line feed at its end. -/
def ofWord (cs : List Char) : Kind :=
  let s := String.ofList cs
  if truthWords.contains s then .truth
  else if isReal cs then .real
  else if isInteger cs then .integer
  else if s = "<<" then .merge
  else if nullWords.contains s then .null
  else if isMoment cs then .moment
  else if s = "=" then .own
  else if reservedWords.contains s then .reserved
  else .text

/-- The kind of an unquoted scalar. -/
def ofChars (cs : List Char) : Kind :=
  if cs = ['\n'] then .text else ofWord (Timestamp.unterminated cs)

/-- The kind of an unquoted scalar; only characters make anything else than text. -/
def ofText (t : Text) : Kind :=
  match t.chars? with
  | some cs => ofChars cs
  | none => .text

end Kind

end ResourceApi.Yaml
