import BatchShell.Condition
import BatchShell.Engine.Dispatch
import BatchShell.Engine.Frame
import BatchShell.Engine.Iteration
import BatchShell.Engine.Pipeline

/-!
# The engine

A line is expanded, read and run; a command runs by its form; and the tasks that come up on the way run one
level deeper.

* `Engine.runCommand` runs a command, given how to run the tasks inside.
* `Engine.perform` runs a task that nests others at most so many levels deep.
* `Engine.runTask` leaves room for more levels than a machine's stack holds.
-/
namespace BatchShell

def Engine.runCommand (e : Engine) (again : Again) : Command → String → Machine → Run
  | .simple c, stdin, m => e.counted m (e.runSimple again false c stdin)
  | .block body rs, stdin, m =>
    e.counted m fun m =>
      Run.recorded (redirected rs stdin m fun stdin m => e.runCommand again body stdin m)
  | .ifThen c body, stdin, m =>
    e.counted m fun m =>
      match c.holds e.matching.glob m.host.files m.state with
      | .error why => some (.crashed why, m)
      | .ok true => Run.recorded (e.runCommand again body stdin m)
      | .ok false => some (.done (.unchanged m.state), m)
  | .ifElse c body other, stdin, m =>
    e.counted m fun m =>
      match c.holds e.matching.glob m.host.files m.state with
      | .error why => some (.crashed why, m)
      | .ok true => Run.recorded (e.runCommand again body stdin m)
      | .ok false => Run.recorded (e.runCommand again other stdin m)
  | .loop head body, stdin, m =>
    e.counted m fun m =>
      Run.recorded (e.runLoop again head (fun m => e.runCommand again body stdin m) m)
  | .pipe left right, stdin, m => e.runPipeline again (left.stages ++ right.stages) stdin m
  | .both left right, stdin, m =>
    Run.andThen (e.runCommand again left stdin m) fun _ m => e.runCommand again right stdin m
  | .andThen left right, stdin, m =>
    Run.andThen (e.runCommand again left stdin m) fun r m =>
      if r.status == 0 then e.runCommand again right stdin m else some (.done ⟨"", "", r.status⟩, m)
  | .orElse left right, stdin, m =>
    Run.andThen (e.runCommand again left stdin m) fun r m =>
      if r.status == 0 then some (.done ⟨"", "", r.status⟩, m) else e.runCommand again right stdin m

/-- Run a logical line. A line that cannot be read is complained about and changes no status. -/
def Engine.runLine (e : Engine) (again : Again) (line stdin : String) (m : Machine) : Run :=
  match Expansion.expandTokens m.host.files m.host.now m.state (Token.scan line) with
  | .error why => some (.crashed why, m)
  | .ok tokens =>
    let m := m.pass line.utf8ByteSize
    match Command.ofTokens? tokens with
    | .error _ => some (.done ⟨"", Complaint.badForm, m.state.status⟩, m)
    | .ok none => some (.done (.unchanged m.state), m)
    | .ok (some c) => e.runCommand again c stdin m

/-- Run a task with at most `levels` levels of tasks. -/
def Engine.perform (e : Engine) : Nat → Task → String → Machine → Run
  | 0, _, _, _ => none
  | levels + 1, task, stdin, m =>
    match task with
    | .line text => e.runLine (e.perform levels) text stdin m
    | .command c => e.runCommand (e.perform levels) c stdin m
    | .called c => e.runSimple (e.perform levels) true c stdin m
    | .script script start params => e.runScript (e.perform levels) script start params stdin m

/-- How many levels of tasks there may be: more than the stack of a machine holds. -/
def maxLevels : Nat := 1000000

def Engine.runTask (e : Engine) (task : Task) (stdin : String) (m : Machine) : Run :=
  e.perform maxLevels task stdin m

end BatchShell
