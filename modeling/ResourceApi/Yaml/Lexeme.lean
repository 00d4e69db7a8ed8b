import ResourceApi.Misfit
import ResourceApi.Text

/-!
# The lexemes of a YAML text

A text is cut into lexemes before its structure is read. Besides the marks that are written, there
are lexemes that indentation alone gives: the beginning of a list or map in block style and its
end, and the mark of a key that only a later colon shows to be one.
-/

namespace ResourceApi.Yaml

/-- Why a text has no value. -/
inductive Defect where
  | malformed
  | misfit (m : Misfit)
  deriving Repr, DecidableEq, Inhabited

/-- A line that begins with a percent sign. -/
inductive Directive where
  /-- The version of the language; of its two numbers only the first counts. -/
  | version (major : Nat)
  /-- What a handle of tags stands for. -/
  | handle (name expansion : List Char)
  | reserved
  deriving Repr, DecidableEq, Inhabited

/-- One lexeme. -/
inductive Lexeme where
  | directive (d : Directive)
  | documentStart | documentEnd
  | blockList | blockMap | blockEnd
  | flowList | flowListEnd | flowMap | flowMapEnd
  | dash | comma | key | colon
  | anchor (name : List Char)
  | alias (name : List Char)
  | tag (handle : Option (List Char)) (suffix : List Char)
  | scalar (text : Text) (isPlain : Bool)
  deriving Repr, DecidableEq, Inhabited

end ResourceApi.Yaml
