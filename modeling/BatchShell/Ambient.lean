/-!
# What changes by itself

The date, the time and a random number, as the moment gives them, and the name of this interpreter.
-/
namespace BatchShell

/-- The moment in which a line runs: the date as `Mon 01/31/2000`, the time as ` 9:05:07.25` with a blank
for a missing digit of the hour, and a random number below 32768. -/
structure Ambient where
  date : String
  time : String
  random : Nat
  deriving DecidableEq

def Ambient.epoch : Ambient := ⟨"Sat 01/01/2000", " 0:00:00.00", 0⟩

def versionBanner : String := "Just CMD [Version 0.1.0]"

end BatchShell
