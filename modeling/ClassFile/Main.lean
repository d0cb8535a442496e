import ClassFile.CommandLine.Run

/-!
# The program

Asks for the command line, the environment and what is on the disk at the path that the
command works on, and writes the answer.
-/

namespace ClassFile

/-- Why something on the disk cannot be read. -/
def FileFault.ofError : IO.Error → FileFault
  | .permissionDenied .. => .locked
  | .inappropriateType .. => .notDirectory
  | _ => .missing

/-- What is on the disk at a path. -/
partial def FileTree.read (path : String) : IO FileTree := do
  match ← ((do (← IO.FS.realPath path).readDir) : IO (Array IO.FS.DirEntry)).toBaseIO with
  | .ok found =>
    let mut entries := []
    for entry in found do
      let tree ← try FileTree.read (Path.join path entry.fileName)
        catch _ => pure FileTree.locked
      entries := FileTree.putEntry entry.fileName (fun _ => tree) entries
    return .directory entries
  | .error _ => return .file (← IO.FS.readBinFile path).toList

/-- The disk, as far as a command line asks for it. -/
def Disk.forArguments (arguments : List String) : IO Disk := do
  match Invocation.parse arguments with
  | .error _ => return fun _ => .error .missing
  | .ok invocation =>
    let found ← (FileTree.read invocation.command.path).toBaseIO
    return fun _ => (found.map fun tree => ⟨tree, []⟩).mapError FileFault.ofError

end ClassFile

open ClassFile in
/-- Runs the program. -/
def main (arguments : List String) : IO UInt32 := do
  let environment : Environment :=
    ⟨← IO.getEnv "CLASS_ANALYZER_LOG", ← IO.getEnv "CLASS_ANALYZER_THREADS"⟩
  let started ← IO.monoMsNow
  let disk ← Disk.forArguments arguments
  let ending ← match Program.answer arguments environment disk with
    | .error ending => pure ending
    | .ok (format, answer) =>
      pure (.answered (answer.render format ((← IO.monoMsNow) - started)))
  match ending with
  | .answered output => (← IO.getStdout).putStr output
  | .refused refusal => (← IO.getStderr).putStr refusal.render
  | .misused .help => (← IO.getStdout).putStr Program.usage
  | .misused _ => (← IO.getStderr).putStr Program.usage
  return ending.status.toUInt32
