import BatchShell.Numeral
import BatchShell.Outcome

/-!
# SHIFT, EXIT and GOTO

Move the parameters of a script, leave it, or go on elsewhere in it.
-/
namespace BatchShell.Builtin

open Text

def shiftStart? (args : List String) : Option Nat :=
  match args with
  | [] => some 0
  | arg :: _ =>
    (dropPrefix? "/" arg).bind fun text =>
      (Numeral.natural? text).bind fun n => if n ≤ 8 then some n else none

def shiftParams (s : State) (start : Nat) : State :=
  match s.calls with
  | [] => s
  | frame :: outer => { s with calls := { frame with params := frame.params.shift start } :: outer }

def runShift (s : State) (args : List String) : Result × State :=
  match shiftStart? args with
  | some start => (.ok, shiftParams s start)
  | none => (.failure "Invalid parameter to SHIFT command.\n", s)

/-- The status that an argument of `EXIT` names; what is no number counts as 0. -/
def exitStatus (s : State) (arg : Option String) : Status :=
  match arg with
  | some text => (Numeral.decimal32? (trim text)).getD 0
  | none => s.status

/-- `EXIT`: leave the interpreter, or with `/B` the script. -/
def runExit (s : State) (args : List String) : Outcome × State :=
  let batchOnly := (args.head?.map (sameIgnoringCase · "/B")).getD false
  let arg := if batchOnly then args[1]? else args.head?
  let signal := Signal.exit (exitStatus s arg) batchOnly
  (.raise signal, if batchOnly then s else { s with phase := .terminated })

/-- `GOTO`. A typed line has no labels to go to. -/
def runGoto (s : State) (args : List String) : Outcome :=
  match args with
  | [] => .done (.failure "No batch label specified to GOTO command.\n")
  | label :: _ =>
    if s.inBatch then .raise (.goto label) else .done (.failure (labelNotFoundText label))

end BatchShell.Builtin
