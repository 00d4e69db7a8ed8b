import ResourceApi.Text.Visible

/-!
# Quoted text

A text in quotes: single ones, unless it holds a single quote and no double one. The quote and
the backslash are escaped, and every code point that is not visible is written by its code.
-/

namespace ResourceApi.Text

/-- The escape of a code point: two, four or eight digits. -/
def codeEscape (n : Nat) : List Char :=
  if n ≤ 0xFF then '\\' :: 'x' :: hex 2 n
  else if n ≤ 0xFFFF then '\\' :: 'u' :: hex 4 n
  else '\\' :: 'U' :: hex 8 n

def escape (quote : Char) (c : CodePoint) : List CodePoint :=
  if c = quote ∨ c = '\\' then ['\\', c]
  else if c = '\n' then ['\\', 'n']
  else if c = '\r' then ['\\', 'r']
  else if c = '\t' then ['\\', 't']
  else if isVisible c then [c]
  else (codeEscape c.code).map .char

/-- The quote that a text is put in. -/
def quoteOf (cs : List CodePoint) : Char :=
  if cs.contains '\'' && !cs.contains '"' then '"' else '\''

/-- The text in quotes. -/
def quoted (s : Text) : Text :=
  let quote := quoteOf s.points
  ⟨[↑quote]⟩ ++ ⟨s.points.flatMap (escape quote)⟩ ++ ⟨[↑quote]⟩

end ResourceApi.Text
