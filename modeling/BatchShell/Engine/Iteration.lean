import BatchShell.Engine.Basic
import BatchShell.Loop.Values

/-!
# Loops

The values of a loop are produced first; then the body runs once for each, with the letters bound to it. A
loop that would run too often stops with a complaint.
-/
namespace BatchShell

/-- What the production of a loop's values gives: the values and complaints, or an outcome that ends the
loop. -/
abbrev Production := Except Outcome (Loop.Values × String)

/-- What a command gives whose lines are the values of a loop. Leaving it early ends it, and so do its
complaints; the loop goes on, unless the interpreter broke off. -/
def Loop.linesOf (options : Loop.LineOptions) : Outcome → Production
  | .crashed why => .error (.crashed why)
  | o => .ok (.list (Loop.lineValues options o.stdout), o.stderr)

/-- The values of a loop over lines. A command runs outside any script, and what it changes in the state is
lost. -/
def Engine.lineValues (_e : Engine) (again : Again) (options set : String) (m : Machine) :
    Option (Production × Machine) :=
  match Loop.LineOptions.parse options with
  | .error (.unexpected text) => some (.error (.done (.failure (unexpectedText text ++ "\n"))), m)
  | .error (.crashed why) => some (.error (.crashed why), m)
  | .ok options =>
    match Loop.LineSource.ofSet options set with
    | .command line =>
      (again (.line line) "" ⟨(m.state.enterPhase .branching).child, m.host⟩).map fun (o, child) =>
        (Loop.linesOf options o, { m with host := child.host })
    | .text text => some (.ok (.list (Loop.lineValues options text), ""), m)
    | .files names =>
      match Loop.readAll m.host.files m.state.cwd names with
      | .error name => some (.error (.done (.failure (Loop.missingFile name))), m)
      | .ok texts => some (.ok (.list (texts.flatMap (Loop.lineValues options)), ""), m)

def Engine.loopValues (e : Engine) (again : Again) (head : LoopHead) (m : Machine) :
    Option (Production × Machine) :=
  let files := m.host.files
  let cwd := m.state.cwd
  let fill := Expansion.fillLoopVars files cwd m.state.loops
  let set := fill head.rawSet
  let items := Parser.setItems set
  let plain (values : List String) : Option (Production × Machine) :=
    some (.ok (.ofItems values, ""), m)
  match head.kind with
  | .items => plain (Loop.itemValues e.matching.glob files cwd .files items)
  | .directories => plain (Loop.itemValues e.matching.glob files cwd .directories items)
  | .recursive root =>
    let root := match root with
      | some path => Path.resolve cwd (fill path)
      | none => cwd
    plain (Loop.treeValues e.matching.glob files root items)
  | .range =>
    match Loop.rangeOf items with
    | .error why => some (.error (.crashed why), m)
    | .ok range => some (.ok (.range range, ""), m)
  | .lines options => e.lineValues again options (Text.trim set) m

def State.bindLoop (s : State) (frame : LoopFrame) : State :=
  { s with loops := frame :: s.loops.drop 1 }

def tooManyIterations (limit : Nat) : String :=
  "FOR: too many iterations (limit " ++ toString limit ++ ")\n"

/-- Run a body for each of the values, at most `remaining` times more. -/
def iterate (limit : Nat) (letter : Char) (body : Machine → Run) (remaining : Nat)
    (values : Loop.Values) (result : Result) (m : Machine) : Run :=
  match values.next?, remaining with
  | none, _ => some (.done result, m)
  | some _, 0 => some (.done ⟨result.stdout, result.stderr ++ tooManyIterations limit, 1⟩, m)
  | some (value, rest), remaining + 1 =>
    match body (m.withState (m.state.bindLoop (Loop.bind letter value))) with
    | some (.done r, m) => iterate limit letter body remaining rest (result.append r) m
    | some (o, m) => some (o.after result, m)
    | none => none

def State.pushLoop (s : State) : State := { s.enterPhase .iterating with loops := [] :: s.loops }

def State.popLoop (s : State) (phase : Phase) : State :=
  { s.enterPhase phase with loops := s.loops.drop 1 }

def Engine.runLoop (e : Engine) (again : Again) (head : LoopHead) (body : Machine → Run) (m : Machine) :
    Run :=
  match e.loopValues again head m with
  | none => none
  | some (.error failed, m) => some (failed, m)
  | some (.ok (values, complaints), m) =>
    let phase := m.state.phase
    (iterate e.limits.iterations head.letter body e.limits.iterations values
      ⟨"", complaints, m.state.status⟩ (m.withState m.state.pushLoop)).map fun (o, m) =>
        (o, m.withState (m.state.popLoop phase))

end BatchShell
