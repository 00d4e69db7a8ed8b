import ResourceApi.Assoc
import ResourceApi.Yaml.Node

/-!
# From lexemes to nodes

The lexemes of a text drive a stack machine. The stack holds the lists and maps still open; the
machine stands before a document, before a node, with the properties read so far, or after one,
where the innermost open list or map decides what may follow. A node may be left out where the
lexeme that comes instead shows it; such a node is absent.

A list or map takes its number when it opens, so its anchor can be used inside it. The machine
refuses a lexeme as soon as it is read: `Builder.run` gives the machine after any lexemes that a
text may begin with, and `Builder.finish?` the graph at the end of the text. Only so many lists and
maps may be open at once; how many is a parameter of `run`.
-/

namespace ResourceApi.Yaml

namespace Builder

/-- What the handles of tags stand for. -/
abbrev Handles := Assoc (List Char) (List Char)

/-- The directives at the head of a document. -/
structure Prologue where
  hasVersion : Bool := false
  handles : Handles := []
  deriving Repr, Inhabited

/-- Which part of an entry in brackets comes next. -/
inductive Slot where
  | entry
  | key
  | value (key : Nat)
  deriving Repr, Inhabited

/-- A list or map still open: its number, its tag, and the numbers of what it holds in reverse. -/
inductive Frame where
  | blockList (id : Nat) (tag : Tag) (items : List Nat)
  /-- A map in block style: a key that waits for its value, and a list in place of a key or value
  whose items stand at the map's own column. -/
  | blockMap (id : Nat) (tag : Tag) (members : List (Nat × Nat)) (key : Option Nat)
      (list : Option (Nat × Tag × List Nat))
  | flowList (id : Nat) (tag : Tag) (items : List Nat) (slot : Slot)
  | flowMap (id : Nat) (tag : Tag) (members : List (Nat × Nat)) (slot : Slot)
  deriving Repr, Inhabited

/-- Where the machine stands. -/
inductive Place where
  /-- Before the first lexeme. -/
  | start
  /-- After directives at the head of the document. -/
  | prologue (p : Prologue)
  /-- Before a node, with the properties read so far. -/
  | due (p : Properties)
  /-- After a node inside an open list or map, or at its beginning. -/
  | between
  /-- After the outermost node. -/
  | done (root : Nat)
  /-- After directives that follow the outermost node. -/
  | epilogue (p : Prologue)
  deriving Repr, Inhabited

end Builder

/-- The machine between two lexemes. -/
structure Builder where
  place : Builder.Place := .start
  stack : List Builder.Frame := []
  handles : Builder.Handles := []
  /-- Was the beginning of the document marked? -/
  isExplicit : Bool := false
  /-- The numbers of the nodes with anchors. -/
  noted : Assoc (List Char) Nat := []
  nodes : Array Node := #[]
  deriving Repr, Inhabited

namespace Builder

/-! ## Directives -/

/-- The handles that every document has. -/
def commonHandles : Handles := [(['!'], ['!']), (['!', '!'], Tag.standardBeginning.toList)]

/-- The only version of the language. -/
def languageVersion : Nat := 1

/-- One more directive. -/
def Prologue.add? (p : Prologue) : Directive → Option Prologue
  | .version major =>
    if p.hasVersion || major != languageVersion then none else some { p with hasVersion := true }
  | .handle name expansion =>
    if Assoc.has p.handles name then none
    else some { p with handles := Assoc.insert p.handles name expansion }
  | .reserved => some p

/-- Begins a document. -/
def begin (b : Builder) (p : Prologue) (isExplicit : Bool) : Builder :=
  { b with
    place := .due {}
    handles := commonHandles.foldl (fun hs h => Assoc.insertNew hs h.1 h.2) p.handles
    isExplicit }

/-! ## Complete nodes -/

/-- Puts a node in the table; its number is the size before. -/
def add (b : Builder) (n : Node) : Builder := { b with nodes := b.nodes.push n }

/-- Hands a complete node to the innermost open list or map. -/
def hand (b : Builder) (id : Nat) : Builder :=
  let go (f : Frame) (s : List Frame) : Builder := { b with place := .between, stack := f :: s }
  match b.stack with
  | [] => { b with place := .done id }
  | .blockList i t xs :: s => go (.blockList i t (id :: xs)) s
  | .blockMap i t ms key (some (j, u, xs)) :: s =>
    go (.blockMap i t ms key (some (j, u, id :: xs))) s
  | .blockMap i t ms none none :: s => go (.blockMap i t ms (some id) none) s
  | .blockMap i t ms (some k) none :: s => go (.blockMap i t ((k, id) :: ms) none none) s
  | .flowList i t xs .entry :: s => go (.flowList i t (id :: xs) .entry) s
  | .flowList i t xs .key :: s => go (.flowList i t xs (.value id)) s
  | .flowList i t xs (.value k) :: s =>
    { b with
      place := .between
      stack := .flowList i t (b.nodes.size :: xs) .entry :: s
      nodes := b.nodes.push (.map .map [(k, id)]) }
  | .flowMap i t ms .entry :: s =>
    { b with
      place := .between
      stack := .flowMap i t ((id, b.nodes.size) :: ms) .entry :: s
      nodes := b.nodes.push .absent }
  | .flowMap i t ms .key :: s => go (.flowMap i t ms (.value id)) s
  | .flowMap i t ms (.value k) :: s => go (.flowMap i t ((k, id) :: ms) .entry) s

/-- Notes the anchor of the node that takes the next number; no two nodes have the same. -/
def note? (b : Builder) (p : Properties) : Option Builder :=
  match p.anchor with
  | none => some b
  | some name =>
    if Assoc.has b.noted name then none
    else some { b with noted := Assoc.insert b.noted name b.nodes.size }

/-- A node with properties is complete. -/
def give (b : Builder) (p : Properties) (n : Node) : Option Builder :=
  (b.note? p).map fun b => (b.add n).hand b.nodes.size

/-- A node that is left out. -/
def giveAbsent (b : Builder) : Builder := (b.add .absent).hand b.nodes.size

/-- Opens a list or map, which takes the next number. -/
def enter (b : Builder) (p : Properties) (place : Place) (f : Nat → Frame) : Option Builder :=
  (b.note? p).map fun b => { b.add .absent with place, stack := f b.nodes.size :: b.stack }

/-- A list or map is complete; it is no longer on the stack. -/
def leave (b : Builder) (id : Nat) (n : Node) (stack : List Frame) : Builder :=
  { b with nodes := b.nodes.setIfInBounds id n, stack }.hand id

/-! ## After a node -/

/-- The machine before a node without properties so far. -/
def await (b : Builder) (stack : List Frame) : Builder := { b with place := .due {}, stack }

/-- A lexeme after a complete node, by the innermost open list or map. A key without a value has an
absent one. -/
def after (b : Builder) (l : Lexeme) : Option Builder :=
  match b.stack with
  | [] => none
  | .blockList i t xs :: s =>
    match l with
    | .dash => some (b.await b.stack)
    | .blockEnd => some (b.leave i (.list t xs.reverse) s)
    | _ => none
  | .blockMap i t ms none none :: s =>
    match l with
    | .key => some (b.await b.stack)
    | .blockEnd => some (b.leave i (.map t ms.reverse) s)
    | _ => none
  | .blockMap i t ms (some k) none :: s =>
    let ms' := (k, b.nodes.size) :: ms
    match l with
    | .colon => some (b.await b.stack)
    | .key => some ((b.add .absent).await (.blockMap i t ms' none none :: s))
    | .blockEnd => some ((b.add .absent).leave i (.map t ms'.reverse) s)
    | _ => none
  | .blockMap _ _ _ _ (some _) :: _ =>
    match l with
    | .dash => some (b.await b.stack)
    | _ => none
  | .flowList i t xs .entry :: s =>
    match l with
    | .comma => some (b.await b.stack)
    | .flowListEnd => some (b.leave i (.list t xs.reverse) s)
    | _ => none
  | .flowList i t xs (.value k) :: s =>
    let pair := (b.add .absent).add (.map .map [(k, b.nodes.size)])
    let xs' := (b.nodes.size + 1) :: xs
    match l with
    | .colon => some (b.await b.stack)
    | .comma => some (pair.await (.flowList i t xs' .entry :: s))
    | .flowListEnd => some (pair.leave i (.list t xs'.reverse) s)
    | _ => none
  | .flowMap i t ms .entry :: s =>
    match l with
    | .comma => some (b.await b.stack)
    | .flowMapEnd => some (b.leave i (.map t ms.reverse) s)
    | _ => none
  | .flowMap i t ms (.value k) :: s =>
    let ms' := (k, b.nodes.size) :: ms
    match l with
    | .colon => some (b.await b.stack)
    | .comma => some ((b.add .absent).await (.flowMap i t ms' .entry :: s))
    | .flowMapEnd => some ((b.add .absent).leave i (.map t ms'.reverse) s)
    | _ => none
  | .flowList _ _ _ .key :: _ | .flowMap _ _ _ .key :: _ => none

/-- A lexeme after a complete node. A list at the column of its map ends at whatever is no dash. -/
def between (b : Builder) (l : Lexeme) : Option Builder :=
  match b.stack, l with
  | .blockMap _ _ _ _ (some _) :: _, .dash => b.after l
  | .blockMap i t ms key (some (j, u, xs)) :: s, l =>
    (b.leave j (.list u xs.reverse) (.blockMap i t ms key none :: s)).after l
  | _, l => b.after l

/-- A lexeme after the outermost node. Only marks of an end and directives may follow. -/
def afterRoot (b : Builder) : Lexeme → Option Builder
  | .documentEnd => some b
  | .directive d => (Prologue.add? {} d).map fun p => { b with place := .epilogue p }
  | _ => none

/-- A lexeme after a complete node, inside or outside. -/
def follow (b : Builder) (l : Lexeme) : Option Builder :=
  match b.place with
  | .done _ => b.afterRoot l
  | _ => b.between l

/-! ## Before a node -/

/-- Does a lexeme that comes in place of a node show that the node is left out? -/
def showsAbsent (b : Builder) (l : Lexeme) : Bool :=
  match b.stack, l with
  | [], .documentStart | [], .documentEnd | [], .directive _ => b.isExplicit
  | .blockList _ _ _ :: _, .dash | .blockList _ _ _ :: _, .blockEnd => true
  | .blockMap _ _ _ _ (some _) :: _, .dash => true
  | .blockMap _ _ _ _ _ :: _, .key | .blockMap _ _ _ _ _ :: _, .colon
  | .blockMap _ _ _ _ _ :: _, .blockEnd => true
  | .flowList _ _ _ .key :: _, .colon | .flowList _ _ _ .key :: _, .comma
  | .flowList _ _ _ .key :: _, .flowListEnd => true
  | .flowList _ _ _ (.value _) :: _, .comma | .flowList _ _ _ (.value _) :: _, .flowListEnd => true
  | .flowMap _ _ _ .key :: _, .colon | .flowMap _ _ _ .key :: _, .comma
  | .flowMap _ _ _ .key :: _, .flowMapEnd => true
  | .flowMap _ _ _ (.value _) :: _, .comma | .flowMap _ _ _ (.value _) :: _, .flowMapEnd => true
  | _, _ => false

/-- May a list or map in block style stand here? -/
def admitsBlock : List Frame → Bool
  | .flowList _ _ _ _ :: _ | .flowMap _ _ _ _ :: _ => false
  | _ => true

/-- The full name of a tag. -/
def tagName? (handles : Handles) (handle : Option (List Char)) (suffix : List Char) :
    Option (List Char) :=
  match handle with
  | none => some suffix
  | some h => (Assoc.get? handles h).map (· ++ suffix)

/-- A lexeme in place of a node that is left out. -/
def absent (b : Builder) (p : Properties) (l : Lexeme) : Option Builder :=
  if !p.isEmpty || b.showsAbsent l then (b.give p p.absent).bind (·.follow l) else none

/-- A tag before a node. A handle that stands for nothing is refused at once after an anchor, and
otherwise with the lexeme after the tag. -/
def takeTag (b : Builder) (p : Properties) (handle : Option (List Char)) (suffix : List Char) :
    Option Builder :=
  match tagName? b.handles handle suffix with
  | some name => some { b with place := .due { p with tag := some name } }
  | none =>
    if p.anchor.isSome then none
    else some { b with place := .due { p with tag := some [], hasStrayTag := true } }

/-- A lexeme before a node. -/
def before (b : Builder) (p : Properties) (l : Lexeme) : Option Builder :=
  match l with
  | .anchor name =>
    if p.anchor.isNone then some { b with place := .due { p with anchor := some name } }
    else b.absent p l
  | .tag handle suffix => if p.tag.isNone then b.takeTag p handle suffix else b.absent p l
  | .alias name =>
    if p.isEmpty then (Assoc.get? b.noted name).map b.hand else b.absent p l
  | .scalar text isPlain => b.give p (p.scalar text isPlain)
  | .flowList => b.enter p (.due {}) fun i => .flowList i (p.tagOr .list) [] .entry
  | .flowMap => b.enter p (.due {}) fun i => .flowMap i (p.tagOr .map) [] .entry
  | .blockList =>
    if admitsBlock b.stack then b.enter p .between fun i => .blockList i (p.tagOr .list) []
    else b.absent p l
  | .blockMap =>
    if admitsBlock b.stack then b.enter p .between fun i => .blockMap i (p.tagOr .map) [] none none
    else b.absent p l
  | .dash =>
    match b.stack with
    | .blockMap i t ms key none :: s =>
      (b.note? p).map fun b =>
        (b.add .absent).await
          (.blockMap i t ms key (some (b.nodes.size, p.tagOr .list, [])) :: s)
    | _ => b.absent p l
  | .key =>
    if p.isEmpty then
      match b.stack with
      | .flowList i t xs .entry :: s => some (b.await (.flowList i t xs .key :: s))
      | .flowMap i t ms .entry :: s => some (b.await (.flowMap i t ms .key :: s))
      | _ => b.absent p l
    else b.absent p l
  | .flowListEnd =>
    match p.isEmpty, b.stack with
    | true, .flowList _ _ _ .entry :: _ => b.after l
    | _, _ => b.absent p l
  | .flowMapEnd =>
    match p.isEmpty, b.stack with
    | true, .flowMap _ _ _ .entry :: _ => b.after l
    | _, _ => b.absent p l
  | l => b.absent p l

/-! ## Documents -/

/-- A lexeme at the head of a document. -/
def head (b : Builder) (p : Prologue) : Lexeme → Option Builder
  | .directive d => (p.add? d).map fun p => { b with place := .prologue p }
  | .documentStart => some (b.begin p true)
  | _ => none

/-- One lexeme. A document whose beginning is not marked has no directives. -/
def step (b : Builder) (l : Lexeme) : Option Builder :=
  match b.place with
  | .start =>
    match l with
    | .directive _ | .documentStart => b.head {} l
    | l => (b.begin {} false).before {} l
  | .prologue p => b.head p l
  | .due p => if p.hasStrayTag then none else b.before p l
  | .between => b.between l
  | .done _ => b.afterRoot l
  | .epilogue p =>
    match l with
    | .directive d => (p.add? d).map fun p => { b with place := .epilogue p }
    | _ => none

/-- The machine after lexemes, where at most so many lists and maps may be open at once. -/
def run (limit : Nat) : Builder → List Lexeme → Except Defect Builder
  | b, [] => .ok b
  | b, l :: ls =>
    match b.step l with
    | none => .error .malformed
    | some b => if limit < b.stack.length then .error (.misfit .tooDeep) else run limit b ls

/-- The graph once the outermost node is complete. -/
def graph? (b : Builder) : Option Graph :=
  match b.place with
  | .done root => some ⟨b.nodes, root⟩
  | _ => none

/-- The graph at the end of the text; `some none` for a text without a document. An outermost node
may be left out if the document's beginning is marked or the node has properties. -/
def finish? (b : Builder) : Option (Option Graph) :=
  match b.place, b.stack with
  | .start, _ => some none
  | .due p, [] =>
    if !p.hasStrayTag && (b.isExplicit || !p.isEmpty) then
      (b.give p p.absent).bind fun b => b.graph?.map some
    else none
  | _, _ => b.graph?.map some

end Builder
end ResourceApi.Yaml
