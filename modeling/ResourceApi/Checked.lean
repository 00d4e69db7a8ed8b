import ResourceApi.Data.Text
import ResourceApi.Text.Case

/-!
# Checked values

A check turns a loaded value into a typed one, or lists everything that is wrong with it. Checks
of several members are combined so that the issues of all of them are kept, in the order of the
members; that is the only difference from the first-error discipline of `Except`, and why
`Checked` is an applicative functor and no monad.

Each issue says where it lies, as a path of keys and positions, and what kind of fault it is.
-/

namespace ResourceApi

/-- One step of a path into a value. -/
inductive Step where
  | key (name : Text)
  | position (n : Nat)
  | number (n : Int)
  deriving DecidableEq, Repr, Inhabited

/-- What is wrong at a place. -/
inductive Fault where
  | missing
  | notText
  | notUnicode
  | notBool
  | unreadableBool
  | notList
  | notMap
  | notRecord
  | notPath
  | notAllowed
  | unknownKey
  | badKey
  /-- The text is no version of the target format. -/
  | badVersion (given : Text)
  deriving DecidableEq, Repr, Inhabited

/-- A fault and its place. -/
structure Issue where
  path : List Step
  fault : Fault
  deriving DecidableEq, Repr, Inhabited

/-- A typed value, or all issues that were found. -/
inductive Checked (α : Type) where
  | ok (a : α)
  | bad (issues : List Issue)
  deriving Repr

namespace Checked

variable {α β : Type}

instance : Inhabited (Checked α) := ⟨.bad []⟩

protected def map (f : α → β) : Checked α → Checked β
  | .ok a => .ok (f a)
  | .bad is => .bad is

/-- Both checks, with the issues of both. -/
protected def seq : Checked (α → β) → Checked α → Checked β
  | .ok f, .ok a => .ok (f a)
  | .ok _, .bad is => .bad is
  | .bad is, .ok _ => .bad is
  | .bad is, .bad js => .bad (is ++ js)

instance : Applicative Checked where
  pure := .ok
  map := Checked.map
  seq f x := Checked.seq f (x ())

/-- A single fault at the value itself. -/
def fault (f : Fault) : Checked α := .bad [⟨[], f⟩]

/-- Moves all issues one step further down. -/
def under (s : Step) : Checked α → Checked α
  | .ok a => .ok a
  | .bad is => .bad (is.map fun i => ⟨s :: i.path, i.fault⟩)

def issues : Checked α → List Issue
  | .ok _ => []
  | .bad is => is

def toOption : Checked α → Option α
  | .ok a => some a
  | .bad _ => none

/-- All checks of a list, with the issues of all. -/
def all : List (Checked α) → Checked (List α)
  | [] => .ok []
  | c :: cs => Checked.seq (Checked.map List.cons c) (all cs)

/-! ## Checks of single values -/

/-- Octets as text; none when they are not well-formed. -/
def textOfOctets (octets : List Nat) : Option Text :=
  (String.fromUTF8? ⟨(octets.map fun n => n.toUInt8).toArray⟩).map Text.ofString

def text : Data → Checked Text
  | .str s => .ok s
  | .bytes b =>
    match textOfOctets b with
    | some s => .ok s
    | none => fault .notUnicode
  | _ => fault .notText

/-- The words for false. -/
def falseWords : List String := ["0", "off", "f", "false", "n", "no"]

/-- The words for true. -/
def trueWords : List String := ["1", "on", "t", "true", "y", "yes"]

/-- The words that stand for true and false, in any case. -/
def boolOfWord (cs : List Char) : Checked Bool :=
  let word := String.ofList (cs.map Char.toLower)
  if word ∈ falseWords then .ok false
  else if word ∈ trueWords then .ok true
  else fault .unreadableBool

/-- The bound of the whole numbers of 64 bits. -/
def shortBound : Int := 0x8000000000000000

/-- Is it a whole number of 64 bits? -/
def isShort (n : Int) : Bool := -shortBound ≤ n && n < shortBound

/-- A truth value, or a number or text that stands for one. -/
def bool : Data → Checked Bool
  | .bool b => .ok b
  | .str s =>
    match s.chars? with
    | some cs => boolOfWord cs
    | none => fault .notUnicode
  | .bytes b =>
    match (textOfOctets b).bind Text.chars? with
    | some cs => boolOfWord cs
    | none => fault .unreadableBool
  | .int n =>
    if n = 0 then .ok false
    else if n = 1 then .ok true
    else if isShort n then fault .unreadableBool
    else fault .notBool
  | .real x =>
    match x.toInt? with
    | none => fault .notBool
    | some n =>
      if n = 0 then .ok false
      else if n = 1 then .ok true
      else if isShort n ∧ n ≠ -shortBound then fault .unreadableBool
      else fault .notBool
  | _ => fault .notBool

/-- One of a few texts. -/
def oneOf (allowed : List Text) : Data → Checked Text
  | .str s =>
    if s.chars?.isNone then fault .notUnicode
    else if s ∈ allowed then .ok s
    else fault .notAllowed
  | _ => fault .notAllowed

/-- Null, or what another check accepts. -/
def nullable (check : Data → Checked α) : Data → Checked (Option α)
  | .null => .ok none
  | v => Checked.map some (check v)

/-- The items that pass a check; issues are located by position. -/
def items (check : Data → Checked α) (xs : List Data) : Checked (List α) :=
  all (xs.zipIdx.map fun (x, i) => under (.position i) (check x))

/-- A list whose items pass a check; a set or a pair will do. -/
def list (check : Data → Checked α) (v : Data) : Checked (List α) :=
  match v.opened with
  | .list xs | .set xs => items check xs
  | .pair a b => items check [a, b]
  | _ => fault .notList

/-! ## Maps -/

/-- The words for a number with too many digits. -/
def unwritten : Text := "<unprintable int object>"

/-- A key that is no text, written out. -/
def keyWritten (k : Data) : Text :=
  match Data.written k with
  | .ok s => s
  | .error _ => unwritten

/-- The step to the member of a map under a key. Only a number of 64 bits is shown as one, and
halves of pairs are not shown. -/
def stepOf : Data → Step
  | .str s => .key s.replaced
  | .int n => if isShort n then .number n else .key (keyWritten (.int n))
  | .bool b => .number (if b then 1 else 0)
  | k => .key (keyWritten k)

/-- A map with text keys whose values pass a check. Keys that stand for one text are one key. -/
def textMap (check : Data → Checked α) (v : Data) : Checked (Assoc Text α) :=
  match v.opened with
  | .map ms =>
    Checked.map Assoc.ofList (all (ms.map fun (k, v) =>
      Checked.seq
        (Checked.map Prod.mk (under (stepOf k) (under (.key "[key]") (text k))))
        (under (stepOf k) (check v))))
  | _ => fault .notMap

/-- Any map, as it is. -/
def anyMap (v : Data) : Checked Data :=
  match v.opened with
  | .map _ => .ok v
  | _ => fault .notMap

/-! ## Records

A record is a map whose members have fixed names. A member may be written under its outer name
or its own name; the outer name wins.
-/

/-- The two names of a member. -/
structure Name where
  outer : Text
  own : Text

/-- A member with one name. -/
def Name.plain (s : Text) : Name := ⟨s, s⟩

/-- The member, with the name it is written under. -/
def find? (ms : List (Data × Data)) (n : Name) : Option (Text × Data) :=
  match Data.lookup ms n.outer with
  | some v => some (n.outer, v)
  | none => (Data.lookup ms n.own).map fun v => (n.own, v)

/-- A member that must be present. -/
def required (ms : List (Data × Data)) (n : Name) (check : Data → Checked α) : Checked α :=
  match find? ms n with
  | some (used, v) => under (.key used) (check v)
  | none => .bad [⟨[.key n.outer], .missing⟩]

/-- A member with a default. -/
def defaulted (ms : List (Data × Data)) (n : Name) (default : α) (check : Data → Checked α) :
    Checked α :=
  match find? ms n with
  | some (used, v) => under (.key used) (check v)
  | none => .ok default

/-- Is the key one that a member of the record is read from? -/
def isUsed (ms : List (Data × Data)) (names : List Name) (key : Text) : Bool :=
  names.any fun n => (find? ms n).any fun found => found.1 == key

/-- Every key of the record that no member is read from, as an issue. No member is read from a key
that is no text, not even from octets that spell its name. -/
def strayIssues (ms : List (Data × Data)) (names : List Name) : List Issue :=
  ms.filterMap fun (k, _) =>
    match k with
    | .str s => if isUsed ms names s then none else some ⟨[stepOf k], .unknownKey⟩
    | _ => some ⟨[stepOf k], .badKey⟩

/-- Is the key a text that cannot be encoded? -/
def isUnencodable : Data → Bool
  | .str s => s.chars?.isNone
  | _ => false

/-- Adds the issue of every key that no member is read from. A key that cannot be encoded is the
only issue. -/
def closed (ms : List (Data × Data)) (names : List Name) (c : Checked α) : Checked α :=
  if ms.any fun m => isUnencodable m.1 then fault .notUnicode
  else
    match c, strayIssues ms names with
    | .ok a, [] => .ok a
    | .ok _, is => .bad is
    | .bad is, js => .bad (is ++ js)

/-- A value that must be a record. -/
def record (check : List (Data × Data) → Checked α) (v : Data) : Checked α :=
  match v.opened with
  | .map ms => check ms
  | _ => fault .notRecord

end Checked

end ResourceApi
