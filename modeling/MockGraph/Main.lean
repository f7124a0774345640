import MockGraph.CommandLine.Run

/-!
# `Main`: the command in the real world
-/

set_option autoImplicit false

namespace MockGraph

/-- Why the system could not read a file. -/
def ReadError.ofSystem : IO.Error → ReadError
  | .noFileOrDirectory .. => .missing
  | .inappropriateType _ 20 _ => .notDirectory
  | .inappropriateType .. => .isDirectory
  | error => .other error.toString

def decodeText (read : IO ByteArray) : IO (Except ReadError String) := do
  match ← read.toBaseIO with
  | .error error => return .error (.ofSystem error)
  | .ok bytes => return (FileTree.file bytes.toList).text

/-- Whether a path of the system names a file. -/
def isSystemFile (path : FilePath) : IO Bool := do
  match ← (do ((← IO.currentDir) / path).metadata : IO IO.FS.Metadata).toBaseIO with
  | .ok metadata => return metadata.type == .file
  | .error _ => return false

/-- The world outside. -/
def systemSurroundings : IO (Surroundings IO) := do
  let input ← IO.getStdin
  let schemaVariable ← IO.getEnv "FAKEQL_SCHEMA"
  return {
    files := ⟨isSystemFile, fun path => decodeText (IO.FS.readBinFile path)⟩
    input := decodeText input.readBinToEnd
    directory := do
      match ← IO.currentDir.toBaseIO with
      | .ok directory => return .ok directory.toString
      | .error error => return .error (.ofSystem error)
    schemaVariable := schemaVariable }

end MockGraph

open MockGraph in
/-- Runs the command with the arguments of the process. -/
def main (arguments : List String) : IO UInt32 := do
  let outcome ← runCommand (← systemSurroundings) arguments
  match outcome with
  | .printed text => (← IO.getStdout).putStr text
  | .failed error => (← IO.getStderr).putStrLn error.report
  | .misused error => (← IO.getStderr).putStrLn ("error: " ++ error.message)
  return outcome.code.toUInt32
