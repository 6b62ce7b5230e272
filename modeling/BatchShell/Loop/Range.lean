/-!
# Ranges of numbers

The values of a counting loop, one after another. The next value is the last one plus the step; a sum
beyond 64 bits ends the range.
-/
namespace BatchShell.Loop

/-- What remains of a range: its next value, if it has one, the step and the end. -/
structure Range where
  next : Option Int
  step : Int
  stop : Int
  deriving DecidableEq

namespace Range

def ofBounds (start step stop : Int) : Range := ⟨some start, step, stop⟩

def inWord (n : Int) : Bool := -9223372036854775808 ≤ n && n ≤ 9223372036854775807

/-- Is a value beyond the end, seen in the direction of the step? -/
def isPast (r : Range) (value : Int) : Bool :=
  if 0 ≤ r.step then decide (r.stop < value) else decide (value < r.stop)

def next? (r : Range) : Option (Int × Range) :=
  match r.next with
  | none => none
  | some value =>
    if r.isPast value then none
    else
      let sum := value + r.step
      some (value, { r with next := if inWord sum then some sum else none })

def take : Nat → Range → List Int × Range
  | 0, r => ([], r)
  | count + 1, r =>
    match r.next? with
    | none => ([], r)
    | some (value, rest) =>
      let (values, last) := take count rest
      (value :: values, last)

end Range

end BatchShell.Loop
