import BatchShell.Crash
import BatchShell.State

/-!
# What a command ends with

A command that runs to its end gives its output and a status. Leaving a line or a script early is a
signal, which carries the output written so far up to where it is handled. When the interpreter breaks off,
what was written so far is lost.

* `Signal` names what was raised; `Signal.message` is the line that describes it.
* `Outcome.prepend` puts output in front of an outcome.
-/
namespace BatchShell

/-- The output of a command on its two streams, and its status. -/
structure Result where
  stdout : String
  stderr : String
  status : Status
  deriving DecidableEq

namespace Result

def ok : Result := ⟨"", "", 0⟩

def output (text : String) : Result := ⟨text, "", 0⟩

def failureWith (text : String) (status : Status) : Result := ⟨"", text, status⟩

/-- Failure with status 1 and a complaint. -/
def failure (text : String) : Result := failureWith text 1

/-- What is left of a pipeline stage that broke off. -/
def brokenOff : Result := ⟨"", "", 1⟩

/-- No output, and the status as it was. -/
def unchanged (s : State) : Result := ⟨"", "", s.status⟩

def append (first next : Result) : Result :=
  ⟨first.stdout ++ next.stdout, first.stderr ++ next.stderr, next.status⟩

end Result

/-- Why a line or script is left early. -/
inductive Signal where
  /-- Go on at a label of the running script. -/
  | goto (label : String)
  /-- Leave the script, or the interpreter when `batchOnly` is false. -/
  | exit (status : Status) (batchOnly : Bool)
  | labelNotFound (label : String)
  /-- Scripts are nested too deeply. -/
  | recursionLimit (depth : Nat)
  | interrupted
  /-- More commands were run than the limit allows. -/
  | executionLimit (limit : Nat)
  deriving DecidableEq

def labelNotFoundText (label : String) : String :=
  "The system cannot find the batch label specified - " ++ Text.dropStart (· == ':') label ++ "\n"

def recursionLimitText (depth : Nat) : String :=
  "****** B A T C H   R E C U R S I O N  exceeds STACK limits ******\nRecursion Count=" ++
    toString depth ++ "\n"

namespace Signal

def message : Signal → String
  | .goto label => "goto " ++ label
  | .exit status _ => "exit " ++ toString status
  | .labelNotFound label => "label not found: " ++ label
  | .recursionLimit depth => "call depth limit exceeded (" ++ toString depth ++ ")"
  | .interrupted => "interrupted"
  | .executionLimit limit => "too many commands executed (limit " ++ toString limit ++ ")"

/-- Does the signal end the whole run, and not only a line or a script? -/
def isFatal : Signal → Bool
  | .goto _ | .exit _ _ => false
  | .labelNotFound _ | .recursionLimit _ | .interrupted | .executionLimit _ => true

/-- Is it a jump to the end of the script? -/
def isEndOfFile (label : String) : Bool :=
  Text.sameIgnoringCase (Text.dropStart (· == ':') label) "EOF"

end Signal

/-- The status of what an interrupt stopped. -/
def interruptedStatus : Status := 130

/-- The status of a run that exceeded the limit on commands. -/
def executionLimitStatus : Status := 126

/-- How a command ends: with a result, or with a signal and the output carried so far, or not at all. -/
inductive Outcome where
  | done (result : Result)
  | raised (signal : Signal) (stdout stderr : String)
  /-- The interpreter broke off. The state that comes with this outcome is never used again. -/
  | crashed (why : Crash)
  deriving DecidableEq

namespace Outcome

def raise (signal : Signal) : Outcome := .raised signal "" ""

def stdout : Outcome → String
  | .done r => r.stdout
  | .raised _ out _ => out
  | .crashed _ => ""

def stderr : Outcome → String
  | .done r => r.stderr
  | .raised _ _ err => err
  | .crashed _ => ""

def prepend (out err : String) : Outcome → Outcome
  | .done r => .done ⟨out ++ r.stdout, err ++ r.stderr, r.status⟩
  | .raised signal o e => .raised signal (out ++ o) (err ++ e)
  | .crashed why => .crashed why

/-- The outcome of what runs after a result. -/
def after (first : Result) (next : Outcome) : Outcome := next.prepend first.stdout first.stderr

end Outcome

end BatchShell
