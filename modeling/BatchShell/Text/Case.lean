/-!
# Letter case of the basic Latin letters

Names of variables, commands, labels and keywords are compared without regard to the case of the
letters `A` to `Z`; all other characters stand for themselves.
-/
namespace BatchShell.Text

/-- The text with `a` to `z` raised. -/
def upper (s : String) : String := s.map Char.toUpper

def lower (s : String) : String := s.map Char.toLower

/-- Equality up to the case of `A` to `Z`. -/
def sameIgnoringCase (a b : String) : Bool := upper a == upper b

end BatchShell.Text
