import BatchShell.Crash

/-!
# Numerals

Integer constants: decimal, hexadecimal after `0x`, or octal after `0`, with a minus sign before them.
The digits themselves may carry a sign of their own.

* `Numeral.parse32` reads a constant of 32 bits.
* `Numeral.natural?` reads an unsigned decimal.
-/
namespace BatchShell.Numeral

/-- The value of a digit or letter as a digit. -/
def digitValue (c : Char) : Nat :=
  if '0' ≤ c ∧ c ≤ '9' then c.toNat - 48
  else if 'a' ≤ c ∧ c ≤ 'z' then c.toNat - 87
  else if 'A' ≤ c ∧ c ≤ 'Z' then c.toNat - 55
  else 36

/-- The number that digits in `base` denote, after `value` for those before them. -/
def digitsFrom? (base : Nat) (value : Nat) : List Char → Option Nat
  | [] => some value
  | c :: cs => if digitValue c < base then digitsFrom? base (value * base + digitValue c) cs else none

def digits? (base : Nat) (cs : List Char) : Option Nat :=
  if cs.isEmpty then none else digitsFrom? base 0 cs

/-- The integer that digits in `base` with an optional sign denote. -/
def signed? (base : Nat) : List Char → Option Int
  | '+' :: cs => (digits? base cs).map Int.ofNat
  | '-' :: cs => (digits? base cs).map fun n => -(Int.ofNat n)
  | cs => (digits? base cs).map Int.ofNat

/-- The integer that a constant without its minus sign denotes. -/
def magnitude? : List Char → Option Int
  | '0' :: 'x' :: cs => signed? 16 cs
  | '0' :: 'X' :: cs => signed? 16 cs
  | '0' :: c :: cs => signed? 8 (c :: cs)
  | cs => signed? 10 cs

def fits32 (n : Int) : Bool := -2147483648 ≤ n && n ≤ 2147483647

def fits64 (n : Int) : Bool := -9223372036854775808 ≤ n && n ≤ 9223372036854775807

/-- The integer that a constant denotes. It is read in 64 bits before its minus sign is applied. -/
def constant : List Char → Except Crash (Option Int)
  | '-' :: cs =>
    match (magnitude? cs).filter fits64 with
    | some n => if fits64 (-n) then .ok (some (-n)) else .error .overflow
    | none => .ok none
  | cs => .ok ((magnitude? cs).filter fits64)

def parse32 (text : String) : Except Crash (Option Int32) :=
  (constant text.toList).map fun n => (n.filter fits32).map Int32.ofInt

/-- A decimal of 32 bits with an optional sign. -/
def decimal32? (text : String) : Option Int32 :=
  (signed? 10 text.toList).bind fun n => if fits32 n then some (Int32.ofInt n) else none

def decimal64? (text : String) : Option Int :=
  (signed? 10 text.toList).bind fun n => if fits64 n then some n else none

/-- An unsigned decimal of 64 bits; a plus sign may stand before it. -/
def natural? (text : String) : Option Nat :=
  let digits := match text.toList with
    | '+' :: cs => digits? 10 cs
    | cs => digits? 10 cs
  digits.bind fun n => if n < UInt64.size then some n else none

end BatchShell.Numeral
