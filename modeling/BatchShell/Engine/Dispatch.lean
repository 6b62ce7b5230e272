import BatchShell.Builtin.Assign
import BatchShell.Builtin.Console
import BatchShell.Builtin.Directory
import BatchShell.Builtin.Echo
import BatchShell.Builtin.Filter
import BatchShell.Builtin.Findstr
import BatchShell.Builtin.Scope
import BatchShell.Builtin.Transfer
import BatchShell.Engine.Basic
import BatchShell.Expansion.Percent
import BatchShell.Parser.Line
import BatchShell.Redirection.Plan
import BatchShell.Resolution
import BatchShell.Token.Lexer

/-!
# Simple commands

A simple command has its loop letters filled in and its files opened; then it is an internal command, a
batch file or a program, and its output goes where its redirections say.
-/
namespace BatchShell

/-- `CALL :label`: run a subroutine of the running script. -/
def callLabel (again : Again) (label : String) (args : List String) (stdin : String) (m : Machine) :
    Run :=
  match m.state.calls with
  | [] =>
    some (.done (.failure "Invalid attempt to call batch label outside of batch script.\n"), m)
  | frame :: _ =>
    match frame.script.findLabel? label with
    | none => some (.done (.failure (labelNotFoundText label)), m)
    | some index => again (.script frame.script (index + 1) (.ofCall label args)) stdin m

def callBatch (again : Again) (path : String) (args : List String) (stdin : String) (m : Machine) :
    Run :=
  match m.host.files.readText? path with
  | none => some (.done (.failure Complaint.fileNotFound), m)
  | some source => again (.script (.load path source) 0 (.ofCall path args)) stdin m

/-- Run a batch file in place of the running script: when it ends, that one ends too. -/
def chainBatch (again : Again) (path : String) (args : List String) (stdin : String) (m : Machine) :
    Run :=
  (callBatch again path args stdin m).map fun (o, m) =>
    match o with
    | .done r => (.raised (.exit r.status true) r.stdout r.stderr, m)
    | other => (other, m)

/-- `CALL` with the text after its name, which is expanded once more. -/
def runCall (again : Again) (raw stdin : String) (m : Machine) : Run :=
  let text := Text.trimStart raw
  match Expansion.expandPercent m.host.files m.host.now m.state text with
  | .error why => some (.crashed why, m)
  | .ok line =>
    let m := m.pass text.length
    match Command.ofTokens? (Token.scan line) with
    | .error _ => some (.done (.failure Complaint.badForm), m)
    | .ok none => some (.done .ok, m)
    | .ok (some (.simple c)) =>
      if c.name.toList.head? == some ':' then callLabel again c.name c.args stdin m
      else again (.called c) stdin m
    | .ok (some c) => again (.command c) stdin m

def Engine.runBuiltin (e : Engine) (again : Again) (builtin : Builtin) (args : List String)
    (raw stdin : String) (m : Machine) : Run :=
  let s := m.state
  let files := m.host.files
  let plain (r : Result) : Run := some (.done r, m)
  let change (r : Result × State) : Run := some (.done r.1, m.withState r.2)
  let leave (o : Outcome × State) : Run := some (o.1, m.withState o.2)
  match builtin with
  | .echo => change (Builtin.runEcho s raw)
  | .set => leave (Builtin.runSet s raw stdin)
  | .setlocal => change (Builtin.runSetlocal s)
  | .endlocal => change (Builtin.runEndlocal s)
  | .cd => leave (Builtin.runCd files s raw)
  | .pushd => change (Builtin.runPushd files s raw)
  | .popd => change (Builtin.runPopd s)
  | .exit => leave (Builtin.runExit s args)
  | .shift => change (Builtin.runShift s args)
  | .goto => some (Builtin.runGoto s args, m)
  | .call => runCall again raw stdin m
  | .rem => plain (.unchanged s)
  | .pause => plain Builtin.runPause
  | .type => plain (Builtin.runType files s args)
  | .more => plain (Builtin.runMore files s args stdin)
  | .sort => plain (Builtin.runSort files s args stdin)
  | .find => plain (Builtin.runFind files s args stdin)
  | .findstr => plain (Builtin.runFindstr e.matching files s args stdin)
  | .cls => plain Builtin.runCls
  | .ver => plain Builtin.runVer
  | .title => change (Builtin.runTitle s raw)
  | .verify => change (Builtin.runVerify s args)
  | .doskey => change (Builtin.runDoskey s raw)

/-- Run a command by its name. A batch file that a script runs without `CALL` takes the script's place. -/
def Engine.dispatch (e : Engine) (again : Again) (called : Bool) (name : String) (args : List String)
    (raw stdin : String) (m : Machine) : Run :=
  match Builtin.echoText? name with
  | some text => some (.done (Builtin.printLine (text ++ raw)), m)
  | none =>
    match Resolution.find m.host.files m.state.env m.state.cwd name with
    | .builtin builtin => e.runBuiltin again builtin args raw stdin m
    | .batch path =>
      if called || !m.state.inBatch then callBatch again path args stdin m
      else chainBatch again path args stdin m
    | .program path =>
      let (r, m) := e.runProgram path args stdin m
      some (.done r, m)
    | .notFound => some (.done (.failureWith (Complaint.notRecognized name) notFoundStatus), m)

/-- Run something with redirections: open the files, run, and send the output where it goes. When a file
cannot be opened, nothing runs. -/
def redirected (rs : List Redirection) (stdin : String) (m : Machine) (body : String → Machine → Run) :
    Run :=
  match Plan.prepare m.state m.host.files rs with
  | (.error complaint, files) =>
    some (.done (.failure complaint), (m.withFiles files).withStatus 1)
  | (.ok plan, files) =>
    (body (plan.stdin.getD stdin) (m.withFiles files)).map fun (o, m) =>
      let (o, files) := plan.deliverOutcome o m.host.files
      (o, m.withFiles files)

def Engine.runSimple (e : Engine) (again : Again) (called : Bool) (c : SimpleCommand) (stdin : String)
    (m : Machine) : Run :=
  let fill := Expansion.fillLoopVars m.host.files m.state.cwd m.state.loops
  let name := fill c.name
  let args := c.args.map fill
  let raw := fill c.rawArgs
  redirected c.redirections stdin m fun stdin m =>
    if name.isEmpty then some (.done (.unchanged m.state), m)
    else Run.recorded (e.dispatch again called name args raw stdin m)

end BatchShell
