import TypeDeps.CommandLine.Run

/-!
# The program

The commands on the file system of the machine, with the arguments and the environment that
the program is started with.
-/
namespace TypeDeps.Program

/-- The failure that the system reports. -/
def failureOf : IO.Error → StorageFailure
  | .noFileOrDirectory _ _ _ => .notFound
  | .alreadyExists _ code _ => if code = 39 then .notEmpty else .exists_
  | .inappropriateType _ code _ => if code = 20 then .notDirectory else .isDirectory
  | .resourceBusy _ _ => .busy
  | .invalidArgument _ code details => if code = 36 then .nameTooLong else .other details
  | e => .other (toString e)

/-- Work on a path, if the system can name it. -/
def onPath {α : Type} (p : Path) (work : String → IO α) : IO (Except StorageFailure α) :=
  if p.bytes.contains 0 then pure (.error .nulInPath)
  else
    match p.text? with
    | none => pure (.error (.other pathNotText))
    | some name =>
      try
        return .ok (← work name)
      catch e => return .error (failureOf e)

instance : Storage IO where
  contentAt p := onPath p fun name => do
    let content ← IO.FS.readBinFile name
    pure content.toList
  isThere p := do
    let found ← onPath p fun name => IO.FS.Handle.mk name .read
    pure found.isOk
  makeDirs p := onPath p fun name => IO.FS.createDirAll name
  setContent p bytes := onPath p fun name => IO.FS.writeBinFile name ⟨bytes.toArray⟩
  replace source target := do
    match target.text? with
    | none => pure (.error (.other pathNotText))
    | some new => onPath source fun old => IO.FS.rename old new

/-- Colours are used on terminals, unless the environment asks for something else. -/
def usesColour : IO Bool := do
  let forced ← IO.getEnv "CLICOLOR_FORCE"
  if forced.any (· ≠ "0") then return true
  if (← IO.getEnv "NO_COLOR").isSome then return false
  (← IO.getStdout).isTty

end TypeDeps.Program

open TypeDeps TypeDeps.Program in
def main (arguments : List String) : IO UInt32 := do
  let look : CommandLine.Look := ⟨← usesColour, false⟩
  let report ← CommandLine.run look (arguments.map bytesOf)
  (← IO.getStdout).putStr report.output
  (← IO.getStderr).putStr report.errors
  pure (UInt32.ofNat report.exit)
