import BatchShell.Config.Toml
import BatchShell.Session

/-!
# Configuration

The settings that a file may give: the prompt, whether lines are echoed, the extensions of commands, and
the limits. A setting that is not known, or not of its kind, makes the file invalid.

* `Config.ofText?` reads the settings.
-/
namespace BatchShell

structure Config where
  prompt : String
  echo : Bool
  extensions : String
  limits : Limits
  deriving DecidableEq

namespace Config

def standard : Config := ⟨Expansion.defaultPrompt, true, Resolution.defaultExtensions, .standard⟩

/-- A bound: an integer that is not negative. -/
def bound? : Toml.Value → Option Nat
  | .integer n => if 0 ≤ n then some n.toNat else none
  | _ => none

def setLimit? (l : Limits) (name : String) (value : Toml.Value) : Option Limits :=
  (bound? value).bind fun n =>
    match name with
    | "max_call_depth" => some { l with callDepth := n }
    | "max_iterations" => some { l with iterations := n }
    | "max_command_count" => some { l with commands := n }
    | "pipe_buffer" => some { l with pipeBuffer := n }
    | _ => none

/-- The names of the limits in order. -/
def limitNames : List String := ["max_call_depth", "max_iterations", "max_command_count", "pipe_buffer"]

/-- The limits of a table, or of an array that gives them in order. -/
def limits? : Toml.Value → Option Limits
  | .table _ es => es.foldlM (fun l (name, value) => setLimit? l name value) Limits.standard
  | .array items =>
    (limitNames.zip items).foldlM (fun l (name, value) => setLimit? l name value) Limits.standard
  | _ => none

def set? (c : Config) (name : String) (value : Toml.Value) : Option Config :=
  match name, value with
  | "prompt", .text text => some { c with prompt := text }
  | "echo", .boolean b => some { c with echo := b }
  | "pathext", .text text => some { c with extensions := text }
  | "limits", value => (limits? value).map fun l => { c with limits := l }
  | _, _ => none

def ofText? (text : String) : Option Config :=
  (Toml.parse? text).bind fun es => es.foldlM (fun c (name, value) => c.set? name value) standard

end Config

end BatchShell
