import ResourceApi.Text.Blank
import ResourceApi.Text.Case

/-!
# Locations of files

A location is a root and a list of names. Reading one drops empty names and single dots, so that
repeated and trailing slashes do not count; two dots are a name like any other. A location that
begins with exactly two slashes keeps both.
-/

namespace ResourceApi

/-- Where a file is. -/
structure Location where
  /-- Empty for a relative location. -/
  root : Text
  names : List Text
  deriving DecidableEq, Repr, Inhabited

namespace Location

/-- The root that a text begins with, by its leading slashes. -/
def rootOf (cs : List CodePoint) : Text :=
  match (cs.takeWhile (· == .char '/')).length with
  | 0 => ""
  | 2 => "//"
  | _ => "/"

def ofText (s : Text) : Location :=
  let names := (Text.splitOn (.char '/') s.points).filter fun cs => cs ≠ [] ∧ cs ≠ [.char '.']
  ⟨rootOf s.points, names.map Text.mk⟩

def toText (l : Location) : Text :=
  let text := l.root ++ Text.join "/" l.names
  if text.isEmpty then "." else text

/-- The last name. -/
def name (l : Location) : Text := l.names.getLast?.getD ""

/-- The location that holds this one; the outermost holds itself. -/
def parent (l : Location) : Location := ⟨l.root, l.names.dropLast⟩

/-- The end of a name from its last dot on; none when the dot is its first or last character. -/
def extension (l : Location) : Text :=
  let back := l.name.points.reverse
  let after := back.takeWhile (· != .char '.')
  match back.drop after.length with
  | _dot :: before => if after = [] ∨ before = [] then "" else "." ++ ⟨after.reverse⟩
  | [] => ""

/-- Is a document at this location written as YAML? -/
def isYaml (l : Location) : Bool :=
  let lower : Text := ⟨l.extension.points.flatMap Text.lower⟩
  lower == ".yaml" || lower == ".yml"

end Location

end ResourceApi
