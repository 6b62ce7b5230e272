import BatchShell.Engine.Run

/-!
# Sessions

A session keeps the state of the interpreter between the lines and scripts it is given. What escapes from
a line or script becomes its result.

* `Session.start` opens a session.
* `Session.exec`, `execScript` and `execFile` run a typed line, a script's text and a batch file.
* `Session.prompt` is the text to show before the next line.
-/
namespace BatchShell

/-- What a session starts with. A missing choice leaves the standard one. -/
structure SessionOptions where
  env : Environment
  cwd : String
  limits : Option Limits
  echo : Option Bool
  prompt : Option String
  extensions : Option String
  stdin : Option String

structure Session where
  engine : Engine
  machine : Machine
  /-- The input of every line and script. -/
  stdin : String

namespace Session

/-- Set a variable to a chosen value, or to a standard one if it is not set. -/
def setDefault (env : Environment) (name : String) (chosen : Option String) (standard : String) :
    Environment :=
  match chosen with
  | some value => env.set name value
  | none => if env.contains name then env else env.set name standard

def start (options : SessionOptions) (runner : Runner) (matching : Matching) (host : Host) : Session :=
  let env := setDefault options.env "PROMPT" options.prompt Expansion.defaultPrompt
  let env := setDefault env "PATHEXT" options.extensions Resolution.defaultExtensions
  let state := { State.initial env options.cwd with echo := options.echo.getD true }
  ⟨⟨options.limits.getD .standard, runner, matching⟩, ⟨state, host⟩, options.stdin.getD ""⟩

/-- The result of a signal that escaped from a line or script. -/
def finalResult (signal : Signal) (out err : String) : Result :=
  match signal with
  | .exit status _ => ⟨out, err, status⟩
  | .interrupted => ⟨out, err, interruptedStatus⟩
  | .executionLimit limit =>
    ⟨out, err ++ (Signal.executionLimit limit).message ++ "\n", executionLimitStatus⟩
  | .goto _ | .labelNotFound _ | .recursionLimit _ => ⟨out, err, 1⟩

/-- The break that ended a line or script is dealt with. -/
def clearBreak (signal : Signal) (host : Host) : Host :=
  match signal with
  | .interrupted => { host with interrupted := false }
  | _ => host

/-- What a line or script gives: a result and the session afterwards, unless the interpreter broke off. `none`
means that tasks were nested too deeply to finish. -/
abbrev Answer := Option (Except Crash (Result × Session))

/-- End a line or script. A result is passed on as it is; what escaped becomes one, and its status is
recorded. -/
def finish (s : Session) (run : Run) : Answer :=
  run.map fun (o, m) =>
    match o with
    | .done r => .ok (r, { s with machine := m })
    | .raised signal out err =>
      let result := finalResult signal out err
      let ended : Machine := ⟨m.state, clearBreak signal m.host⟩
      .ok (result, { s with machine := ended.withStatus result.status })
    | .crashed why => .error why

/-- The machine at the start of a line or script: the count of commands starts again. -/
def fresh (s : Session) : Machine :=
  s.machine.withState { s.machine.state with commandCount := 0 }

/-- Run a typed line, after replacing the macro that it starts with. -/
def exec (s : Session) (line : String) : Answer :=
  let text := (s.machine.state.macros.expandLine? line).getD line
  s.finish (s.engine.runTask (.line text) s.stdin s.fresh)

def execScript (s : Session) (name source : String) (args : List String) : Answer :=
  s.finish (s.engine.runTask (.script (.load name source) 0 (.ofCall name args)) s.stdin s.fresh)

def execFile (s : Session) (path : String) (args : List String) : Answer :=
  s.finish (callBatch s.engine.runTask (Path.resolve s.machine.state.cwd path) args s.stdin s.fresh)

def prompt (s : Session) : String :=
  Expansion.expandPrompt s.machine.host.now s.machine.state.cwd s.machine.state.promptTemplate

def isTerminated (s : Session) : Bool := s.machine.state.phase == .terminated

end Session

end BatchShell
