import ResourceApi.Assoc
import ResourceApi.Location
import ResourceApi.Misfit

/-!
# Folders of files

A folder holds text files and further folders, each under the names that lead to it. A location is
followed name by name: every name but the last must be that of a folder, and two dots lead back.
Writing a file first makes the folders on the way that are missing.

A location is named in octets. A code point that has none, and the character that ends a name, make
it the location of nothing; a name or a whole location can also be too long.
-/

namespace ResourceApi

/-- What is at a location. -/
inductive Place where
  | missing
  | directory
  | file (text : String)
  /-- Nothing can be at the location. -/
  | impossible (m : Misfit)
  deriving DecidableEq, Repr, Inhabited

/-- The text of the file at a place. -/
def Place.text : Place → Except Misfit String
  | .file t => .ok t
  | .impossible m => .error m
  | _ => .error .isDirectory

/-! ## Names in octets -/

namespace CodePoint

/-- How many octets a code point takes up in the name of a file. Of the halves of pairs only those
have a place there that stand for single octets. -/
def octetCount? : CodePoint → Option Nat
  | .char c => some c.utf8Size
  | .half n => if 0x480 ≤ n.val ∧ n.val < 0x500 then some 1 else none

end CodePoint

namespace Text

/-- How many octets a text takes up in the name of a file. -/
def octetCount? (t : Text) : Option Nat :=
  (t.points.mapM CodePoint.octetCount?).map fun counts => counts.foldl (· + ·) 0

end Text

namespace Location

/-- The greatest number of octets of a name. -/
def longestName : Nat := 255

/-- The greatest number of octets of a whole location. -/
def longestText : Nat := 4095

/-- Why nothing can be at a location that is given as text. -/
def impossible? (text : Text) : Option Misfit :=
  if (text.octetCount?).isNone then some .notEncodable
  else if text.points.contains (.char '\x00') then some .notName
  else none

def isTooLong (text : Text) : Bool := (text.octetCount?).any (longestText < ·)

def hasLongName (name : Text) : Bool := (name.octetCount?).any (longestName < ·)

end Location

/-- Text files and folders, each under the names that lead to it. -/
structure Folder where
  files : Assoc (List Text) String := []
  /-- The folders inside this one. -/
  directories : List (List Text) := []
  deriving Repr, Inhabited

namespace Folder

def up : Text := ".."

/-- Is the name that of a root? -/
def isRoot (name : Text) : Bool := name == "/" || name == "//"

/-- Does a list of names lead out of the folder, to a root or to a folder around it? -/
def isOutward : List Text → Bool
  | [] => true
  | name :: names => (isRoot name && names.isEmpty) || (name == up && names.all (· == up))

/-- Does a list of names lead to something outside the folder? -/
def isOutside : List Text → Bool
  | [] => false
  | name :: _ => isRoot name || name == up

/-- The names after one more step. A root is its own end. -/
def step (names : List Text) (name : Text) : List Text :=
  if name ≠ up then names ++ [name]
  else if !isOutward names then names.dropLast
  else if names.any isRoot then names
  else names ++ [name]

/-- What is under a list of names. Every folder further out is there. -/
def placeOf (f : Folder) (names : List Text) : Place :=
  if isOutward names || f.directories.contains names then .directory
  else
    match Assoc.get? f.files names with
    | some text => .file text
    | none => .missing

/-- The names that a location leads to, from names that lead to a folder. -/
def follow? (f : Folder) : List Text → List Text → Option (List Text)
  | names, [] => some names
  | names, n :: rest => if f.placeOf names = .directory then follow? f (step names n) rest else none

/-- A root stands for a name of its own. -/
def namesOf (l : Location) : List Text := if l.root.isEmpty then l.names else l.root :: l.names

/-- What is at a location. -/
def look (f : Folder) (l : Location) : Place :=
  match f.follow? [] (namesOf l) with
  | some names => f.placeOf names
  | none => .missing

/-- What is at a location given as text. A slash or a dot at the end asks for a folder. -/
def lookText (f : Folder) (s : Text) : Place :=
  let last := (Text.splitOn (.char '/') s.points).getLast?.getD []
  match Location.impossible? s with
  | some m => .impossible m
  | none =>
    if s.isEmpty || Location.isTooLong s then .missing
    else
      match f.look (Location.ofText s) with
      | .file text => if last = [] ∨ last = [.char '.'] then .missing else .file text
      | place => place

/-- Makes the folders that names lead through, from names that lead to a folder. A file in the place
of the last one, or of any after one that was missing, is told apart from a file on the way. Folders
made before a failure stay. -/
def makeAll (f : Folder) (hasMade : Bool) :
    List Text → List Text → Except Misfit (List Text) × Folder
  | names, [] => (.ok names, f)
  | names, n :: rest =>
    let next := step names n
    if Location.hasLongName n then (.error .nameTooLong, f)
    else
      match f.placeOf next with
      | .directory => makeAll f hasMade next rest
      | .missing => makeAll { f with directories := f.directories ++ [next] } true next rest
      | _ => (.error (if hasMade || rest.isEmpty then .isFile else .notDirectory), f)

/-- Puts a text in the place of a file. A text that cannot be encoded leaves the file empty. -/
def put (f : Folder) (names : List Text) (text : Text) : Except Misfit Unit × Folder :=
  match f.placeOf names, text.toString? with
  | .directory, _ => (.error .isDirectory, f)
  | _, some s => (.ok (), { f with files := Assoc.insert f.files names s })
  | _, none => (.error .notEncodable, { f with files := Assoc.insert f.files names "" })

/-- Writes a file and makes the folders on the way to it; the folders stay even if the file cannot
be written. -/
def write (f : Folder) (l : Location) (text : Text) : Except Misfit Unit × Folder :=
  match Location.impossible? l.parent.toText with
  | some m => (.error m, f)
  | none =>
    if Location.isTooLong l.parent.toText then (.error .nameTooLong, f)
    else
      match f.makeAll false [] (namesOf l.parent) with
      | (.error m, f) => (.error m, f)
      | (.ok names, f) =>
        match Location.impossible? l.toText with
        | some m => (.error m, f)
        | none =>
          if Location.isTooLong l.toText || Location.hasLongName l.name then
            (.error .nameTooLong, f)
          else f.put (if l.names.isEmpty then names else step names l.name) text

/-- A folder of files, with the folders that hold them. -/
def ofFiles (files : List (Location × Text)) : Folder :=
  files.foldl (fun f file => (f.write file.1 file.2).2) {}

/-- The files inside the folder. -/
def inner (f : Folder) : Assoc (List Text) String := f.files.filter fun file => !isOutside file.1

end Folder

end ResourceApi
