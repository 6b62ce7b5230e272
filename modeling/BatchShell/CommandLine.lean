import BatchShell.Config.Basic
import BatchShell.Text.Json

/-!
# The command line

`-c` runs one line; a path runs a batch file with the arguments after it; without either the lines of the
input are run. The result goes to the two output streams, or with `--json` as one object for each line or
script.

* `Invocation.parse?` reads the arguments.
* `Invocation.run` does what they ask for.
-/
namespace BatchShell

structure Invocation where
  command : Option String
  script : Option String
  args : List String
  cwd : Option String
  config : Option String
  json : Bool
  logLevel : Option String
  version : Bool
  deriving DecidableEq

namespace Invocation

def empty : Invocation := ⟨none, none, [], none, none, false, none, false⟩

/-- Take in an argument that is no option: the script, or an argument of it. -/
def addPositional? (i : Invocation) (arg : String) : Option Invocation :=
  match i.script with
  | none => if arg.isEmpty || i.command.isSome then none else some { i with script := some arg }
  | some _ => some { i with args := i.args ++ [arg] }

/-- Set an option that has a value. An option is given once, and a path is not empty. -/
def setOption? (i : Invocation) (name value : String) : Option Invocation :=
  match name with
  | "c" => if i.command.isSome || i.script.isSome then none else some { i with command := some value }
  | "cwd" => if i.cwd.isSome || value.isEmpty then none else some { i with cwd := some value }
  | "config" => if i.config.isSome || value.isEmpty then none else some { i with config := some value }
  | "log-level" => if i.logLevel.isSome then none else some { i with logLevel := some value }
  | _ => none

inductive Argument where
  | positional
  /-- The rest are no options. -/
  | stop
  /-- An option without value. -/
  | flag (name : String)
  /-- An option with a value, unless the value is the next argument. -/
  | option (name : String) (value : Option String)
  | unknown
  deriving DecidableEq

/-- Read an argument such as `--name` or `--name=value`. -/
def longArgument (text : String) : Argument :=
  let (name, value) := match Text.cutAt '=' text with
    | some (name, value) => (name, some value)
    | none => (text, none)
  match name, value with
  | "json", none => .flag "json"
  | "version", none => .flag "version"
  | "cwd", _ | "config", _ | "log-level", _ => .option name value
  | _, _ => .unknown

/-- Read an argument such as `-c` or `-ctext`. -/
def shortArgument (letters : List Char) : Argument :=
  match letters with
  | ['c'] => .option "c" none
  | 'c' :: '=' :: value => .option "c" (some (String.ofList value))
  | 'c' :: value => .option "c" (some (String.ofList value))
  | 'V' :: _ => .flag "version"
  | _ => .unknown

def isShortLetter (c : Char) : Bool := c == 'c' || c == 'V' || c == 'h'

/-- Read an argument. After the script, what is no option is an argument of the script. -/
def argument (afterScript : Bool) (arg : String) : Argument :=
  match arg.toList with
  | ['-', '-'] => .stop
  | '-' :: '-' :: name =>
    match longArgument (String.ofList name), afterScript with
    | .unknown, true => .positional
    | found, _ => found
  | '-' :: c :: letters =>
    if afterScript && (c :: letters).any fun d => !isShortLetter d then .positional
    else shortArgument (c :: letters)
  | _ => .positional

def looksLikeOption (arg : String) : Bool :=
  match arg.toList with
  | '-' :: _ :: _ => true
  | _ => false

/-- Read arguments after those read before. An argument of the script ends the options. `none` means that
the arguments cannot be understood. -/
def parseFrom (i : Invocation) (onlyPositional : Bool) : List String → Option Invocation
  | [] => some i
  | arg :: rest =>
    if onlyPositional then (i.addPositional? arg).bind fun i => parseFrom i true rest
    else
      match argument i.script.isSome arg with
      | .stop => parseFrom i true rest
      | .positional => (i.addPositional? arg).bind fun i => parseFrom i (!i.args.isEmpty) rest
      | .flag "json" => if i.json then none else parseFrom { i with json := true } false rest
      | .flag _ => some { i with version := true }
      | .option name (some value) => (i.setOption? name value).bind fun i => parseFrom i false rest
      | .option name none =>
        match rest with
        | value :: more =>
          if looksLikeOption value then none
          else (i.setOption? name value).bind fun i => parseFrom i false more
        | [] => none
      | .unknown => none

def parse? (args : List String) : Option Invocation := parseFrom empty false args

end Invocation

inductive ConfigFault where
  | unreadable (path : String)
  | invalid (path : String)
  deriving DecidableEq

def ConfigFault.message : ConfigFault → String
  | .unreadable path => "Error: cannot read config file " ++ path
  | .invalid path => "Error: invalid config file " ++ path

/-- What a run of the program writes, and its exit status. -/
structure Report where
  stdout : String
  stderr : String
  status : Status
  /-- The step at which the interpreter broke off, if it did. -/
  crash : Option Crash
  deriving DecidableEq

def Report.empty : Report := ⟨"", "", 0, none⟩

def configVariable : String := "JUST_CMD_CONFIG"

def programVersion : String := "just-cmd 0.1.0"

namespace Invocation

/-- Load the configuration that an argument or else a variable names. -/
def loadConfig (i : Invocation) (vars : List (String × String)) (files : FileTree) :
    Except ConfigFault Config :=
  let path := match i.config with
    | some path => some path
    | none => vars.lookup configVariable
  match path with
  | none => .ok .standard
  | some path =>
    match (files.read? path).bind String.fromUTF8? with
    | none => .error (.unreadable path)
    | some text =>
      match Config.ofText? text with
      | some config => .ok config
      | none => .error (.invalid path)

def addResult (i : Invocation) (before : Report) (r : Result) : Report :=
  if i.json then
    { before with
      stdout := before.stdout ++ "\x7b\"exitCode\":" ++ toString r.status ++ ",\"stderr\":" ++
        Text.jsonString r.stderr ++ ",\"stdout\":" ++ Text.jsonString r.stdout ++ "\x7d\n"
      status := r.status }
  else { before with
    stdout := before.stdout ++ r.stdout
    stderr := before.stderr ++ r.stderr
    status := r.status }

/-- What was written before the interpreter broke off stays. -/
def addCrash (before : Report) (why : Crash) : Report :=
  { before with
    stderr := before.stderr ++ "Error: interpreter thread failed\n"
    status := 1
    crash := some why }

/-- Run lines until the interpreter is left. A break that was requested before a line does not stop it. -/
def runLines (i : Invocation) (s : Session) (written : Report) : List String → Option Report
  | [] => some { written with status := s.machine.state.status }
  | line :: lines =>
    let s := { s with machine := { s.machine with host := { s.machine.host with interrupted := false } } }
    match s.exec line with
    | none => none
    | some (.error why) => some (addCrash written why)
    | some (.ok (r, s)) =>
      let written := i.addResult written r
      if s.isTerminated then some { written with status := s.machine.state.status }
      else i.runLines s written lines

def session (i : Invocation) (config : Config) (vars : List (String × String)) (cwd : String)
    (runner : Runner) (matching : Matching) (host : Host) : Session :=
  .start ⟨.ofList vars, i.cwd.getD cwd, some config.limits, some config.echo, some config.prompt,
    some config.extensions, none⟩ runner matching host

/-- The lines of an input; each may end in a carriage return. -/
def inputLines (stdin : String) : List String :=
  let parts := Text.pieces (· == '\n') stdin
  let whole := if parts.getLast? == some "" then parts.dropLast else parts
  let ended := parts.dropLast.length
  whole.zipIdx.map fun (line, n) => if n < ended then (Text.dropSuffix? "\r" line).getD line else line

def run (i : Invocation) (vars : List (String × String)) (cwd stdin : String) (runner : Runner)
    (matching : Matching) (host : Host) : Except ConfigFault (Option Report) :=
  if i.version then .ok (some { Report.empty with stdout := programVersion ++ "\n" })
  else
    match i.loadConfig vars host.files with
    | .error fault => .error fault
    | .ok config =>
      let s := i.session config vars cwd runner matching host
      let single (answer : Session.Answer) : Option Report := answer.map fun
        | .ok (r, _) => i.addResult .empty r
        | .error why => addCrash .empty why
      .ok (match i.command, i.script with
        | some line, _ => single (s.exec line)
        | none, some path => single (s.execFile path i.args)
        | none, none => i.runLines s .empty (inputLines stdin))

end Invocation

/-- The part of a status that the caller of a program sees. -/
def exitByte (status : Status) : Nat := (Int.emod status.toInt 256).toNat

end BatchShell
