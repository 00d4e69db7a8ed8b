import ResourceApi.CommandLine

/-!
# The program

Looks at the locations that the arguments name, carries out the plan on disk, and ends with its
code.
-/

namespace ResourceApi

/-- What is at a location on disk. -/
def lookOnDisk (location : Text) : IO (Text × Place) := do
  match location.toString? with
  | none => return (location, .impossible .notEncodable)
  | some name =>
    try
      return (location, .file (← IO.FS.readFile name))
    catch
      | .inappropriateType .. => return (location, .directory)
      | _ => return (location, .missing)

/-- A text for the disk; one that cannot be encoded ends the program. -/
def encode (text : Text) : IO String :=
  match text.toString? with
  | some s => return s
  | none => throw (.userError "text cannot be encoded")

/-- Carries out a plan on disk. A text that cannot be encoded leaves its file empty. -/
def Plan.carryOutOnDisk (p : Plan) : IO Unit := do
  for line in p.lines do IO.println (← encode line)
  for line in p.notices do IO.eprintln line.shown
  if let some (file, text) := p.file then
    IO.FS.createDirAll (← encode file.parent.toText)
    IO.FS.writeFile (← encode file.toText) (text.toString?.getD "")
    discard (encode text)
  for line in p.closing do IO.println (← encode line)

end ResourceApi

open ResourceApi in
def main (words : List String) : IO UInt32 := do
  let args := words.map Text.ofString
  let named :=
    match Request.parse args with
    | .ok (.invocation i) => i.locations
    | _ => []
  let places ← named.mapM lookOnDisk
  let plan := Plan.ofArguments (fun s => (places.lookup s).getD .missing) args
  plan.carryOutOnDisk
  return plan.ending.exitCode.toUInt32
