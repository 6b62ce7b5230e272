import BatchShell.Command
import BatchShell.Complaint
import BatchShell.Host
import BatchShell.Matching
import BatchShell.Outcome

/-!
# Running things

What the engine can be asked to run, and what is done before every command. The parts of the engine are
written over a function `again`, which runs a task that came up on the way: the line of a script, a called
command, a stage of a pipeline. `none` means that tasks were nested too deeply to finish.
-/
namespace BatchShell

/-- The bounds to keep, what programs do, and what patterns match. -/
structure Engine where
  limits : Limits
  runner : Runner
  matching : Matching

inductive Task where
  /-- A logical line, before expansion. -/
  | line (text : String)
  | command (command : Command)
  /-- A simple command after `CALL`. -/
  | called (command : SimpleCommand)
  /-- A script or subroutine from a line on. -/
  | script (script : Script) (start : Nat) (params : Params)
  deriving DecidableEq

/-- How something ended and what it changed. -/
abbrev Run := Option (Outcome × Machine)

/-- Runs a task with an input. -/
abbrev Again := Task → String → Machine → Run

namespace Machine

def count (m : Machine) : Machine :=
  m.withState { m.state with commandCount := m.state.commandCount + 1 }

def noteStart (m : Machine) : Machine := { m with host := { m.host with started := m.host.started + 1 } }

/-- Record the status of an outcome that is a result. -/
def withOutcome (m : Machine) (o : Outcome) : Machine :=
  match o with
  | .done r => m.withStatus r.status
  | .raised _ _ _ | .crashed _ => m

end Machine

/-- Run something unless a break was requested or too many commands were run. -/
def Engine.counted (e : Engine) (m : Machine) (body : Machine → Run) : Run :=
  if m.host.interrupted then some (.raise .interrupted, m)
  else if e.limits.commands < m.count.state.commandCount then
    some (.raise (.executionLimit e.limits.commands), m.count)
  else body m.count.noteStart

/-- Run something after a result, whose output stays in front. -/
def Run.andThen (first : Run) (next : Result → Machine → Run) : Run :=
  match first with
  | some (.done r, m) => (next r m).map fun (o, m) => (o.after r, m)
  | other => other

def Run.recorded (run : Run) : Run := run.map fun (o, m) => (o, m.withOutcome o)

def notFoundStatus : Status := 9009

/-- What a program or a stage of a pipeline ends with: the bytes it wrote, its error output and its status. -/
structure StageResult where
  stdout : Bytes
  stderr : String
  status : Status
  deriving DecidableEq

def StageResult.result (r : StageResult) : Result := ⟨Text.ofBytes r.stdout, r.stderr, r.status⟩

def Result.stage (r : Result) : StageResult := ⟨Text.toBytes r.stdout, r.stderr, r.status⟩

/-- The error output and the status that a program's end gives. A program that did not run has no errors of
its own. -/
def ProgramEnd.verdict (program : String) (stderr : Bytes) : ProgramEnd → String × Status
  | .exited status => (Text.ofBytes stderr, status)
  | .missing => (Complaint.notRecognized program, notFoundStatus)
  | .failed reason => (program ++ ": " ++ reason ++ "\n", 1)

/-- Run a program on bytes. Quotes only group words, so it does not see them. -/
def Engine.streamProgram (e : Engine) (program : String) (args : List String) (stdin : Bytes)
    (m : Machine) : StageResult × Machine :=
  let request : ProgramRequest :=
    ⟨program, args.map dequote, m.state.cwd, m.state.env.visible, stdin⟩
  let run := e.runner request m.host.interrupted m.host.files
  let verdict := run.ending.verdict program run.stderr
  (⟨run.stdout, verdict.1, verdict.2⟩, { m with host := { m.host with
    files := run.files
    interrupted := m.host.interrupted || run.interrupts
    requests := request :: m.host.requests } })

def Engine.runProgram (e : Engine) (program : String) (args : List String) (stdin : String)
    (m : Machine) : Result × Machine :=
  let (r, m) := e.streamProgram program args (Text.toBytes stdin) m
  (r.result, m)

end BatchShell
