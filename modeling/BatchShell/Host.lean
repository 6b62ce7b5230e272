import BatchShell.Ambient
import BatchShell.State

/-!
# The world around the interpreter

The files, the moments to come, the flag that a break sets, and the programs that were run. What a program
does is given by a `Runner`, a function of the request, the flag and the files.
-/
namespace BatchShell

/-- Bounds on what one line or script may use. -/
structure Limits where
  /-- How deeply scripts and subroutines may be nested. -/
  callDepth : Nat
  /-- How often one loop may run its body. -/
  iterations : Nat
  /-- How many commands may be run. -/
  commands : Nat
  /-- How many pieces a pipe between two programs holds. -/
  pipeBuffer : Nat
  deriving DecidableEq

def Limits.standard : Limits := ⟨256, 1000000, 10000000, 16⟩

/-- What programs read and write. -/
abbrev Bytes := List UInt8

structure ProgramRequest where
  program : String
  args : List String
  cwd : String
  env : List Variable
  stdin : Bytes
  deriving DecidableEq

inductive ProgramEnd where
  | exited (status : Status)
  /-- The file could not be found. -/
  | missing
  | failed (reason : String)
  deriving DecidableEq

structure ProgramRun where
  stdout : Bytes
  stderr : Bytes
  ending : ProgramEnd
  /-- Was a break requested while it ran? -/
  interrupts : Bool
  files : FileTree

/-- What programs do. A program may be stopped by a break that was requested before. -/
abbrev Runner := ProgramRequest → (interrupted : Bool) → FileTree → ProgramRun

/-- The world around the interpreter. -/
structure Host where
  files : FileTree
  /-- The moments at which the next text is expanded, by the number of characters that are left. -/
  now : Nat → Ambient
  /-- Has a break been requested? -/
  interrupted : Bool
  /-- The programs that were run, the latest first. -/
  requests : List ProgramRequest
  /-- How many commands and programs were started. -/
  started : Nat

/-- The interpreter and the world around it. -/
structure Machine where
  state : State
  host : Host

namespace Machine

def withState (m : Machine) (state : State) : Machine := { m with state := state }

def withFiles (m : Machine) (files : FileTree) : Machine := { m with host := { m.host with files := files } }

/-- Let the moments pass in which a text of a length was expanded. -/
def pass (m : Machine) (length : Nat) : Machine :=
  { m with host := { m.host with now := fun n => m.host.now (length + n) } }

def withStatus (m : Machine) (status : Status) : Machine := m.withState { m.state with status := status }

end Machine

end BatchShell
