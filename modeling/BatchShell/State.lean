import BatchShell.Environment
import BatchShell.Expansion.LoopVars
import BatchShell.Expansion.MacroTable
import BatchShell.Script

/-!
# The state of the interpreter

What a line can change: variables, the working directory, the last exit status and the rest of the
session's settings, together with the scripts and loops that are running.
-/
namespace BatchShell

abbrev Status := Int32

inductive Phase where
  | running
  /-- Deciding a condition or producing the values of a loop. -/
  | branching
  /-- Running the body of a loop. -/
  | iterating
  /-- Inside a called script or subroutine. -/
  | calling
  /-- An `EXIT` has ended the interpreter. -/
  | terminated
  deriving DecidableEq

/-- The parameters of a script: `%0` and the arguments, which shifting moves, and the text of `%*`, which
it does not. -/
structure Params where
  args : List String
  all : String
  deriving DecidableEq

namespace Params

def ofCall (name : String) (args : List String) : Params := ⟨name :: args, " ".intercalate args⟩

/-- The parameter with a number; empty when there is none. -/
def get (p : Params) (index : Nat) : String := p.args.getD index ""

/-- Drop the parameter with number `start` and move the later ones down. -/
def shift (p : Params) (start : Nat) : Params := { p with args := p.args.eraseIdx start }

end Params

/-- A running script or subroutine: where it goes on, its parameters, and what to restore when it ends. -/
structure CallFrame where
  script : Script
  /-- The index of the line to run next. -/
  next : Nat
  params : Params
  savedEcho : Bool
  /-- How many scopes were open when it started. -/
  scopeMarker : Nat
  deriving DecidableEq

/-- The state of the interpreter. Stacks have their innermost member first. -/
structure State where
  env : Environment
  cwd : String
  status : Status
  echo : Bool
  phase : Phase
  calls : List CallFrame
  loops : List LoopFrame
  directories : List String
  commandCount : Nat
  title : Option String
  verify : Bool
  macros : MacroTable
  deriving DecidableEq

namespace State

def initial (env : Environment) (cwd : String) : State :=
  ⟨env, cwd, 0, true, .running, [], [], [], 0, none, false, .empty⟩

/-- Is a script running? Otherwise the line was typed. -/
def inBatch (s : State) : Bool := !s.calls.isEmpty

def params? (s : State) : Option Params := s.calls.head?.map (·.params)

/-- Enter a phase; the end of the interpreter is final. -/
def enterPhase (s : State) (phase : Phase) : State :=
  if s.phase == .terminated then s else { s with phase := phase }

/-- The state in which a pipeline stage or the command of a loop set runs: outside any script, with the
active loops still visible. -/
def child (s : State) : State := { s with calls := [] }

end State

end BatchShell
