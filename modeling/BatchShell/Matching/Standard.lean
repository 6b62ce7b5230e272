import BatchShell.Glob
import BatchShell.Matching
import BatchShell.Regex.Parser

/-!
# The standard matching

The stand-ins for the libraries, put together.
-/
namespace BatchShell

def Matching.standard : Matching where
  glob := Glob.matching
  holdsText ignoreCase text := (Regex.literal ignoreCase text).occurs
  holdsExpression? ignoreCase text := (Regex.parse? ignoreCase text).map (·.occurs)

end BatchShell
