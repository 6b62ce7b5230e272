import BatchShell.Numeral

/-!
# Characters by their codes

Hexadecimal digits, and the character that such digits name.
-/
namespace BatchShell.Text

def isHexDigit (c : Char) : Bool :=
  c.isDigit || ('a' ≤ c && c ≤ 'f') || ('A' ≤ c && c ≤ 'F')

def charOfCode? (n : Nat) : Option Char := if n.isValidChar then some (Char.ofNat n) else none

/-- The character whose code is written in hexadecimal digits. -/
def hexChar? (digits : List Char) : Option Char := (Numeral.digits? 16 digits).bind charOfCode?

def hexDigit (n : Nat) : Char := if n < 10 then Char.ofNat (48 + n) else Char.ofNat (87 + n)

end BatchShell.Text
