import BatchShell.Command
import BatchShell.Numeral
import BatchShell.State
import BatchShell.Text.Folding
import BatchShell.Wildcard

/-!
# Conditions

What an `IF` asks. `==` compares texts, quotes included; the named comparisons take numbers when both
sides are numbers and texts otherwise.

* `CompareOp.holds` compares two operands.
* `Condition.holds` decides a condition in a state.
-/
namespace BatchShell

open Text

/-- The order of two texts: character by character, after lower-casing both when case is ignored. -/
def textOrder (ignoreCase : Bool) (left right : String) : Ordering :=
  if ignoreCase then compare (lowerCase left) (lowerCase right) else compare left right

/-- The order of the operands of a named comparison. Both are read before they are compared. -/
def operandOrder (ignoreCase : Bool) (left right : String) : Except Crash Ordering := do
  match ← Numeral.parse32 left, ← Numeral.parse32 right with
  | some l, some r => .ok (compare l.toInt r.toInt)
  | _, _ => .ok (textOrder ignoreCase left right)

def CompareOp.admits : CompareOp → Ordering → Bool
  | .equal, o | .equ, o => o == .eq
  | .neq, o => o != .eq
  | .lss, o => o == .lt
  | .leq, o => o != .gt
  | .gtr, o => o == .gt
  | .geq, o => o != .lt

def CompareOp.holds (op : CompareOp) (ignoreCase : Bool) (left right : String) : Except Crash Bool :=
  (if op == .equal then .ok (textOrder ignoreCase left right)
    else operandOrder ignoreCase left right).map op.admits

def pathExists (glob : Wildcard.Glob) (files : FileTree) (cwd path : String) : Bool :=
  let plain := dequote path
  if plain.isEmpty then false
  else if Wildcard.hasWildcards plain then !(Wildcard.expand glob files cwd plain .any).isEmpty
  else files.has (Path.resolve cwd plain)

/-- Decide a test, after filling in the loop letters. -/
def Test.holds (glob : Wildcard.Glob) (files : FileTree) (s : State) (ignoreCase : Bool) (test : Test) :
    Except Crash Bool :=
  let fill := Expansion.fillLoopVars files s.cwd s.loops
  match test with
  | .exist path => .ok (pathExists glob files s.cwd (fill path))
  | .defined name => .ok (s.env.contains (fill name))
  | .errorLevel level => (Numeral.parse32 (trim (fill level))).map fun n => n.any fun n => decide (n ≤ s.status)
  | .compare left op right => op.holds ignoreCase (fill left) (fill right)

def Condition.holds (glob : Wildcard.Glob) (files : FileTree) (s : State) (c : Condition) :
    Except Crash Bool :=
  (c.test.holds glob files s c.ignoreCase).map (· != c.negated)

end BatchShell
