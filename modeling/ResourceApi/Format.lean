import ResourceApi.Json.Printer
import ResourceApi.Location
import ResourceApi.Yaml.Printer

/-!
# Formats

A document is written as YAML or as JSON; the end of the file's name decides.
-/

namespace ResourceApi

/-- The format of a written document. -/
inductive Format where
  | yaml | json
  deriving DecidableEq, Repr

namespace Format

/-- The format of a file at a location. -/
def ofLocation (l : Location) : Format := if l.isYaml then .yaml else .json

/-- The text of a value. -/
def render : Format → Json → Text
  | .yaml, v => Yaml.print v
  | .json, v => v.pretty

end Format

end ResourceApi
