import ChipEight.Cli.Execution

/-!
# ChipEight.Main — the command line

Reads the files that the arguments name, lets the command be carried out, and writes the report.
-/

namespace ChipEight

/-- What a path that cannot be read leads to. -/
def unreadable : IO.Error → Cli.Entry
  | .inappropriateType _ 21 _ => .directory
  | .inappropriateType _ _ _ => .failed .notDirectory
  | .noFileOrDirectory _ _ _ => .failed .noSuchFile
  | .permissionDenied _ _ _ => .failed .permissionDenied
  | e => .nothing (toString e)

/-- A path and what it leads to. -/
def readEntry (path : String) : IO (String × Cli.Entry) := do
  try
    let bytes ← IO.FS.readBinFile path
    return (path, .file bytes.toList)
  catch e =>
    return (path, unreadable e)

/-- The files that the arguments name. -/
def readFiles (args : List String) : IO Cli.Files := do
  let names := match Cli.Command.parse args with
    | .ok c => c.files
    | .error _ => []
  let found ← names.mapM readEntry
  return fun path => (found.lookup path).getD (.failed .noSuchFile)

end ChipEight

/-- Carries out the command of the arguments; the exit status is that of its report. -/
def main (args : List String) : IO UInt32 := do
  let files ← ChipEight.readFiles args
  let seed ← IO.rand 0 (UInt64.size - 1)
  let report := ChipEight.Cli.execute files (UInt64.ofNat seed) args
  for text in report.log do
    IO.println ("ERROR " ++ text)
  IO.print report.stdout
  IO.eprint report.stderr
  return UInt32.ofNat report.status
