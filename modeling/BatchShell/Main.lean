import BatchShell.CommandLine
import BatchShell.Matching.Standard

/-!
# The program

Reads the arguments and the input, and prints what the run writes. The files of a run live in memory: the
script and the configuration that the arguments name are read in before it starts, and programs cannot be
run.
-/
namespace BatchShell

def addNamedFile (tree : FileTree) (path : Option String) : IO FileTree := do
  match path with
  | none => return tree
  | some path =>
    try
      let bytes ← IO.FS.readBinFile path
      return tree.makeFile (Path.parts path) ⟨bytes, false, false⟩
    catch _ => return tree

partial def readInput (input : IO.FS.Stream) (text : String) : IO String := do
  let line ← input.getLine
  if line.isEmpty then return text else readInput input (text ++ line)

/-- No program can be run. -/
def noPrograms : Runner := fun _ _ files => ⟨[], [], .failed "programs cannot be run", false, files⟩

def runMain (args : List String) : IO UInt32 := do
  match Invocation.parse? args with
  | none =>
    IO.eprintln "error: the arguments cannot be understood"
    return 2
  | some invocation =>
    let config ← IO.getEnv configVariable
    let vars := (config.map fun value => (configVariable, value)).toList
    let tree ← addNamedFile .empty invocation.script
    let tree ← addNamedFile tree (invocation.config.or config)
    let needsInput := invocation.command.isNone && invocation.script.isNone
    let stdin ← if needsInput then readInput (← IO.getStdin) "" else pure ""
    match invocation.run vars "/" stdin noPrograms .standard ⟨tree, fun _ => .epoch, false, [], 0⟩ with
    | .error fault =>
      IO.eprintln fault.message
      return 1
    | .ok none =>
      IO.eprintln "error: commands are nested too deeply"
      return 1
    | .ok (some report) =>
      IO.print report.stdout
      IO.eprint report.stderr
      return (exitByte report.status).toUInt32

end BatchShell

def main (args : List String) : IO UInt32 := BatchShell.runMain args
