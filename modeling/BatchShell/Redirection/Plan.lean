import BatchShell.Command
import BatchShell.Complaint
import BatchShell.Outcome

/-!
# Redirections

The redirections of a command are taken from left to right. Every output file is opened before the command
runs, so `> file` empties it even when nothing is written; the output is added when the command has ended.

* `Plan.prepare` opens the files and says where the streams go.
* `Plan.deliver` sends a result where the plan says.
-/
namespace BatchShell

inductive Sink where
  | stdout
  | stderr
  | discard
  | file (path : String)
  deriving DecidableEq

/-- The streams of a command: an input that replaces the given one, and where its output goes. -/
structure Plan where
  stdin : Option String
  stdout : Sink
  stderr : Sink
  deriving DecidableEq

namespace Plan

def standard : Plan := ⟨none, .stdout, .stderr⟩

/-- Where a stream goes; only output and errors are kept track of. -/
def sink? (p : Plan) : Nat → Option Sink
  | 1 => some p.stdout
  | 2 => some p.stderr
  | _ => none

/-- Let a stream end elsewhere; other handles than output and errors are passed over. -/
def setSink (p : Plan) (handle : Nat) (sink : Sink) : Plan :=
  match handle with
  | 1 => { p with stdout := sink }
  | 2 => { p with stderr := sink }
  | _ => p

def readFrom (p : Plan) (s : State) (files : FileTree) (name : String) : Except String Plan :=
  if isNullDevice name then .ok { p with stdin := some "" }
  else
    match files.readText? (Path.resolve s.cwd name) with
    | some text => .ok { p with stdin := some text }
    | none => .error Complaint.fileNotFound

/-- Let a stream end in a file, which is opened. -/
def writeTo (p : Plan) (s : State) (files : FileTree) (handle : Nat) (append : Bool) (name : String) :
    Except String Plan × FileTree :=
  if isNullDevice name then (.ok (p.setSink handle .discard), files)
  else
    let path := Path.resolve s.cwd name
    match files.openOutput? path append with
    | some files => (.ok (p.setSink handle (.file path)), files)
    | none => (.error Complaint.pathNotFound, files)

/-- Take in one redirection. The error is the complaint. -/
def add (p : Plan) (s : State) (files : FileTree) (r : Redirection) : Except String Plan × FileTree :=
  let fill := Expansion.fillLoopVars files s.cwd s.loops
  match r.op, r.target with
  | .input, .file name => (p.readFrom s files (fill name), files)
  | .input, .handle _ => (.ok p, files)
  | .output, .file name => p.writeTo s files r.handle false (fill name)
  | .append, .file name => p.writeTo s files r.handle true (fill name)
  | _, .handle source =>
    match p.sink? source with
    | some sink => (.ok (p.setSink r.handle sink), files)
    | none => (.ok p, files)

/-- Take in redirections from left to right, up to the first that fails. -/
def addAll (p : Plan) (s : State) (files : FileTree) :
    List Redirection → Except String Plan × FileTree
  | [] => (.ok p, files)
  | r :: rs =>
    match p.add s files r with
    | (.ok p, files) => p.addAll s files rs
    | (.error text, files) => (.error text, files)

def prepare (s : State) (files : FileTree) (rs : List Redirection) : Except String Plan × FileTree :=
  standard.addAll s files rs

/-- Send a text to where its stream ends, after what the result holds already. -/
def route (sink : Sink) (text : String) (r : Result) (files : FileTree) : Result × FileTree :=
  if text.isEmpty then (r, files)
  else
    match sink with
    | .stdout => ({ r with stdout := r.stdout ++ text }, files)
    | .stderr => ({ r with stderr := r.stderr ++ text }, files)
    | .discard => (r, files)
    | .file path =>
      match files.append? path text with
      | some files => (r, files)
      | none => ({ r with stderr := r.stderr ++ Complaint.pathNotFound }, files)

/-- Send the output of a result, and then its errors, where the plan says. -/
def deliver (p : Plan) (r : Result) (files : FileTree) : Result × FileTree :=
  let (routed, files) := route p.stdout r.stdout ⟨"", "", r.status⟩ files
  route p.stderr r.stderr routed files

/-- The same for what an outcome carries. Nothing is sent when the interpreter broke off. -/
def deliverOutcome (p : Plan) (o : Outcome) (files : FileTree) : Outcome × FileTree :=
  match o with
  | .done r =>
    let (r, files) := p.deliver r files
    (.done r, files)
  | .raised signal out err =>
    let (r, files) := p.deliver ⟨out, err, 0⟩ files
    (.raised signal r.stdout r.stderr, files)
  | .crashed why => (.crashed why, files)

end Plan

end BatchShell
