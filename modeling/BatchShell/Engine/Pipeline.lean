import BatchShell.Engine.Basic
import BatchShell.Resolution

/-!
# Pipelines

Every stage of a pipeline starts from the same copy of the state, outside any script, and what it changes
there is lost. The input of a stage is the bytes that the one before it wrote; all stages but programs read
them as text. The output and the status are those of the last stage; the errors are those of all stages in
order.
-/
namespace BatchShell

/-- What is left when a stage ends. A stage that broke off leaves no output. -/
def Outcome.stageResult : Outcome → Result
  | .done r => r
  | .raised (.exit status _) out err => ⟨out, err, status⟩
  | .raised .interrupted out err => ⟨out, err, interruptedStatus⟩
  | .raised (.labelNotFound label) out err => ⟨out, err ++ labelNotFoundText label, 1⟩
  | .raised _ out err => ⟨out, err, 1⟩
  | .crashed _ => .brokenOff

/-- The program that a stage is, if it is nothing else: a simple command without redirections. -/
def stageProgram? (m : Machine) : Command → Option (String × List String)
  | .simple c =>
    if !c.redirections.isEmpty then none
    else
      let fill := Expansion.fillLoopVars m.host.files m.state.cwd m.state.loops
      match Resolution.find m.host.files m.state.env m.state.cwd (fill c.name) with
      | .program path => some (path, c.args.map fill)
      | _ => none
  | _ => none

/-- Run one stage. A program that is a stage is neither counted nor stopped by a break. -/
def Engine.runStage (e : Engine) (again : Again) (c : Command) (stdin : Bytes) (m : Machine) :
    Option (StageResult × Host) :=
  match stageProgram? m c with
  | some (program, args) =>
    let (result, m) := e.streamProgram program args stdin m.noteStart
    some (result, m.host)
  | none => (again (.command c) (Text.ofBytes stdin) m).map fun (o, m) => (o.stageResult.stage, m.host)

/-- Run stages from left to right, each in the state `base`. -/
def Engine.runStages (e : Engine) (again : Again) (base : State) (before : StageResult) (host : Host) :
    List Command → Option (StageResult × Host)
  | [] => some (before, host)
  | c :: cs =>
    match e.runStage again c before.stdout ⟨base, host⟩ with
    | none => none
    | some (r, host) =>
      e.runStages again base ⟨r.stdout, before.stderr ++ r.stderr, r.status⟩ host cs

def Engine.runPipeline (e : Engine) (again : Again) (stages : List Command) (stdin : String)
    (m : Machine) : Run :=
  (e.runStages again m.state.child ⟨Text.toBytes stdin, "", 0⟩ m.host stages).map fun (r, host) =>
    (.done r.result, Machine.withStatus { m with host := host } r.status)

end BatchShell
