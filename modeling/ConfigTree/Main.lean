import ConfigTree.CommandLine.World

/-! The program: the host of its runs is the operating system. -/

namespace ConfigTree.CommandLine

/-- The cause of a failure, in the words of the system. -/
def cause : IO.Error → String
  | .noFileOrDirectory _ code _ => "No such file or directory (os error " ++ toString code ++ ")"
  | .permissionDenied _ code _ => "Permission denied (os error " ++ toString code ++ ")"
  | .inappropriateType _ code _ => "Is a directory (os error " ++ toString code ++ ")"
  | e => toString e

def attempt {α : Type} (act : IO α) : IO (Except String α) := do
  try
    return .ok (← act)
  catch e =>
    return .error (cause e)

/-- The directory of a path, with the separator, and the name in it. -/
def splitName (path : String) : String × String :=
  match Path.splitLast '/' path.toList with
  | some (directory, name) => (String.ofList directory ++ "/", String.ofList name)
  | none => ("", path)

/-- Writes a file beside the one to replace, and renames it, so that no half of it is ever seen. -/
def replace (path : String) (bytes : List UInt8) : IO Unit := do
  let (directory, name) := splitName path
  let fresh := directory ++ "." ++ name ++ ".new"
  IO.FS.writeBinFile fresh ⟨bytes.toArray⟩
  try
    IO.FS.rename fresh path
  catch e =>
    IO.FS.removeFile fresh
    throw e

def system : Host IO where
  isInteractive := do (← IO.getStdin).isTty
  input := do
    let bytes ← attempt do (← IO.getStdin).readBinToEnd
    return bytes.bind fun b => World.decode b.toList
  file path := do
    let bytes ← attempt (IO.FS.readBinFile path)
    return bytes.bind fun b => World.decode b.toList
  replace path bytes := attempt (replace path bytes)
  print bytes := attempt do
    let out ← IO.getStdout
    out.write ⟨bytes.toArray⟩
    out.flush
  complain line := do (← IO.getStderr).putStrLn line

end ConfigTree.CommandLine

def main (arguments : List String) : IO UInt32 := do
  let code ← ConfigTree.CommandLine.system.run arguments
  return code.toUInt32
