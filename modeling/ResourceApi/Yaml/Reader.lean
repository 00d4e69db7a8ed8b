import ResourceApi.Yaml.Lexeme.Scan
import ResourceApi.Yaml.Node.Builder
import ResourceApi.Yaml.Node.Tree

/-!
# Reading YAML texts

A text is cut into lexemes, the lexemes give a graph of nodes, and the graph stands for a value. A
text without a document stands for null. A carriage return, alone or before a line feed, counts as
a line feed. A misfit among the lexemes is the text's defect only if the lexemes before it are in
order.
-/

namespace ResourceApi.Yaml

/-- The text with a line feed at every line end that holds a carriage return. -/
def unifyBreaks : List Char → List Char
  | [] => []
  | '\r' :: '\n' :: cs => '\n' :: unifyBreaks cs
  | c :: cs => (if c = '\r' then '\n' else c) :: unifyBreaks cs

/-- The graph that a text stands for, if it holds a document. -/
def graph (reader : Reader) (cs : List Char) : Except Defect (Option Graph) :=
  if cs.all isReadable then
    let scanned := Scanned.ofText cs
    match Builder.run reader.maxDepth {} scanned.lexemes, scanned.defect with
    | .ok b, none =>
      match b.finish? with
      | some g => .ok g
      | none => .error .malformed
    | .ok _, some d => .error d
    | .error d, _ => .error d
  else .error .malformed

/-- The value that a text stands for. -/
def read (text : List Char) (reader : Reader := .standard) : Except Defect Data := do
  match ← graph reader (unifyBreaks text) with
  | none => return .null
  | some g => g.data reader

end ResourceApi.Yaml
