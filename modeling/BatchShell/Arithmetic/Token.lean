import BatchShell.Numeral
import BatchShell.Text.Blank
import BatchShell.Text.Letter

/-!
# Tokens of arithmetic expressions

Constants, names, operators, parentheses and commas. White space and double quotes only separate.
-/
namespace BatchShell.Arithmetic

inductive Fault where
  | divideByZero
  | missingOperand
  | missingOperator
  | unbalancedParenthesis
  | invalidNumber
  deriving DecidableEq

def Fault.message : Fault → String
  | .divideByZero => "Divide by zero error."
  | .missingOperand => "Missing operand."
  | .missingOperator => "Missing operator."
  | .unbalancedParenthesis => "Unbalanced parenthesis."
  | .invalidNumber =>
    "Invalid number.  Numeric constants are either decimal (17),\nhexadecimal (0x11), or octal (021)."

/-- Why a computation ends without a value. -/
inductive Stop where
  | fault (fault : Fault)
  | crashed (why : Crash)
  deriving DecidableEq

inductive BinaryOp where
  | or
  | xor
  | and
  | shiftLeft
  | shiftRight
  | add
  | sub
  | mul
  | div
  | rem
  deriving DecidableEq

/-- A token. An assignment sign may carry the operator it applies. -/
inductive Token where
  | number (value : Int32)
  | name (text : String)
  | binary (op : BinaryOp)
  | assign (op : Option BinaryOp)
  | not
  | complement
  | openParen
  | closeParen
  | comma
  deriving DecidableEq

/-- The operator that a text starts with, the longest that fits, and how many characters it has. -/
def operator? : List Char → Option (Token × Nat)
  | '<' :: '<' :: '=' :: _ => some (.assign (some .shiftLeft), 3)
  | '>' :: '>' :: '=' :: _ => some (.assign (some .shiftRight), 3)
  | '<' :: '<' :: _ => some (.binary .shiftLeft, 2)
  | '>' :: '>' :: _ => some (.binary .shiftRight, 2)
  | '+' :: '=' :: _ => some (.assign (some .add), 2)
  | '-' :: '=' :: _ => some (.assign (some .sub), 2)
  | '*' :: '=' :: _ => some (.assign (some .mul), 2)
  | '/' :: '=' :: _ => some (.assign (some .div), 2)
  | '%' :: '=' :: _ => some (.assign (some .rem), 2)
  | '&' :: '=' :: _ => some (.assign (some .and), 2)
  | '^' :: '=' :: _ => some (.assign (some .xor), 2)
  | '|' :: '=' :: _ => some (.assign (some .or), 2)
  | '+' :: _ => some (.binary .add, 1)
  | '-' :: _ => some (.binary .sub, 1)
  | '*' :: _ => some (.binary .mul, 1)
  | '/' :: _ => some (.binary .div, 1)
  | '%' :: _ => some (.binary .rem, 1)
  | '&' :: _ => some (.binary .and, 1)
  | '^' :: _ => some (.binary .xor, 1)
  | '|' :: _ => some (.binary .or, 1)
  | '!' :: _ => some (.not, 1)
  | '~' :: _ => some (.complement, 1)
  | '=' :: _ => some (.assign none, 1)
  | _ => none

def inName (c : Char) : Bool :=
  Text.isLetterOrNumeral c || c == '_' || c == '.' || c == '$' || c == '#' || c == '@'

/-- The tokens of an expression. A digit starts a constant, which reaches to the end of its letters and
digits. -/
def tokens : List Char → Except Stop (List Token)
  | [] => .ok []
  | c :: cs =>
    if Text.isBlank c || c == '"' then tokens cs
    else if c.isDigit then
      match Numeral.parse32 (String.ofList (c :: cs.takeWhile Char.isAlphanum)) with
      | .error why => .error (.crashed why)
      | .ok none => .error (.fault .invalidNumber)
      | .ok (some n) => do .ok (.number n :: (← tokens (cs.dropWhile Char.isAlphanum)))
    else if Text.isLetter c || c == '_' then do
      .ok (.name (String.ofList (c :: cs.takeWhile inName)) :: (← tokens (cs.dropWhile inName)))
    else if c == '(' then do .ok (.openParen :: (← tokens cs))
    else if c == ')' then do .ok (.closeParen :: (← tokens cs))
    else if c == ',' then do .ok (.comma :: (← tokens cs))
    else
      match operator? (c :: cs) with
      | none => .error (.fault .missingOperator)
      | some (op, size) => do .ok (op :: (← tokens (cs.drop (size - 1))))
  termination_by cs => cs.length
  decreasing_by
    all_goals simp only [List.length_cons, List.length_drop]
    all_goals first
      | omega
      | exact Nat.lt_succ_of_le (List.dropWhile_suffix _).length_le

end BatchShell.Arithmetic
