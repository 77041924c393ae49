import JarGate.CommandLine.Run

/-!
# The program

Runs the commands on the disk.
-/

namespace JarGate.Main

open CommandLine (Files)

/-- The reason that the system gives for a failure. -/
def reason : IO.Error → String
  | .noFileOrDirectory .. => "No such file or directory (os error 2)"
  | .permissionDenied .. => "Permission denied (os error 13)"
  | e => toString e

/-- An action, with the reason where it fails. -/
def attempt {α : Type} (action : IO α) : IO (Except String α) := do
  match ← action.toBaseIO with
  | .ok a => return .ok a
  | .error e => return .error (reason e)

/-- The files on the disk. -/
def disk : Files IO where
  read path := attempt do return (← IO.FS.readBinFile path).toList
  exists? path := do return (← attempt (IO.FS.Handle.mk path .read)).isOk
  write path content := attempt (IO.FS.writeBinFile path ⟨content.toArray⟩)

end JarGate.Main

def main (arguments : List String) : IO UInt32 := do
  let outcome ← JarGate.CommandLine.run JarGate.Main.disk arguments
  (← IO.getStdout).putStr outcome.output
  if let some line := outcome.error then
    (← IO.getStderr).putStrLn line
  return if outcome.success then 0 else 1
