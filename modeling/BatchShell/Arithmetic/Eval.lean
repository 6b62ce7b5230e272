import BatchShell.Arithmetic.Token
import BatchShell.Environment

/-!
# Values of arithmetic expressions

An expression is read and computed from left to right in 32-bit two's complement. From loosest to
tightest, the operators are `|`, `^`, `&`, the shifts, `+` and `-`, `*`, `/` and `%`, all to the left;
then the signs before an operand. Assignments stand to the right, and a list has the value of its last
member. Names are read as numbers; an undefined or non-numeric variable counts as zero. Assignments made
before a fault stay made.

* `evaluate` gives the value, or why there is none, and the variables afterwards.
-/
namespace BatchShell.Arithmetic

/-- What remains of `ts` after something was read. -/
abbrev Shorter (ts : List Token) := { rest : List Token // rest.length < ts.length }

/-- What remains of `ts` after something, perhaps nothing, was read. -/
abbrev NotLonger (ts : List Token) := { rest : List Token // rest.length ≤ ts.length }

/-- Computing may fail, and keeps the variables assigned so far either way. -/
abbrev Computing (α : Type) := ExceptT Stop (StateM Environment) α

abbrev Operand := (ts : List Token) → Computing (Int32 × Shorter ts)

/-- The value of a binary operation. Sums, differences and products wrap, division truncates, and only
the low five bits of a shift count matter. -/
def BinaryOp.apply (op : BinaryOp) (a b : Int32) : Except Fault Int32 :=
  match op with
  | .or => .ok (a ||| b)
  | .xor => .ok (a ^^^ b)
  | .and => .ok (a &&& b)
  | .shiftLeft => .ok (a <<< b)
  | .shiftRight => .ok (a >>> b)
  | .add => .ok (a + b)
  | .sub => .ok (a - b)
  | .mul => .ok (a * b)
  | .div => if b == 0 then .error .divideByZero else .ok (a / b)
  | .rem => if b == 0 then .error .divideByZero else .ok (a % b)

/-- How tight an operator binds, from zero. -/
def BinaryOp.level : BinaryOp → Nat
  | .or => 0
  | .xor => 1
  | .and => 2
  | .shiftLeft | .shiftRight => 3
  | .add | .sub => 4
  | .mul | .div | .rem => 5

def variableValue (env : Environment) (name : String) : Except Crash Int32 :=
  match env.get? name with
  | none => .ok 0
  | some text => (Numeral.parse32 (Text.trim text)).map (·.getD 0)

def readVariable (name : String) : Computing Int32 := do
  match variableValue (← get) name with
  | .ok n => pure n
  | .error why => throw (.crashed why)

def chainFrom (level : Nat) (operand : Operand) (left : Int32) :
    (ts : List Token) → Computing (Int32 × NotLonger ts)
  | [] => pure (left, ⟨[], Nat.le_refl _⟩)
  | t :: ts =>
    match t with
    | .binary op =>
      if op.level == level then do
        let (right, rest) ← operand ts
        let value ← liftExcept (op.apply left right)
        let (total, after) ← chainFrom level operand value rest.val
        pure (total, ⟨after.val, Nat.le_trans after.property
          (Nat.le_of_lt (Nat.lt_succ_of_lt rest.property))⟩)
      else pure (left, ⟨t :: ts, Nat.le_refl _⟩)
    | _ => pure (left, ⟨t :: ts, Nat.le_refl _⟩)
  termination_by ts => ts.length
  decreasing_by exact Nat.lt_succ_of_lt rest.property
where
  /-- A fault of an operation is a fault of the computation. -/
  liftExcept (value : Except Fault Int32) : Computing Int32 :=
    match value with
    | .ok n => pure n
    | .error e => throw (.fault e)

/-- Read operands joined by the operators of one level. -/
def chain (level : Nat) (operand : Operand) : Operand := fun ts => do
  let (left, rest) ← operand ts
  let (total, after) ← chainFrom level operand left rest.val
  pure (total, ⟨after.val, Nat.lt_of_le_of_lt after.property rest.property⟩)

/-- Read a constant, a name or a parenthesis; `inner` reads what stands in parentheses. -/
def primary (inner : Operand) : Operand
  | .number n :: ts => pure (n, ⟨ts, Nat.lt_succ_self _⟩)
  | .name text :: ts => do pure (← readVariable text, ⟨ts, Nat.lt_succ_self _⟩)
  | .openParen :: ts => do
    let (value, rest) ← inner ts
    match h : rest.val with
    | .closeParen :: after =>
      pure (value, ⟨after, by
        have h1 := rest.property
        rw [h] at h1
        simp at h1 ⊢
        omega⟩)
    | _ => throw (.fault .unbalancedParenthesis)
  | _ => throw (.fault .missingOperand)

def unary (inner : Operand) : Operand
  | .not :: ts => do
    let (value, rest) ← unary inner ts
    pure (if value == 0 then 1 else 0, ⟨rest.val, Nat.lt_succ_of_lt rest.property⟩)
  | .complement :: ts => do
    let (value, rest) ← unary inner ts
    pure (~~~value, ⟨rest.val, Nat.lt_succ_of_lt rest.property⟩)
  | .binary .sub :: ts => do
    let (value, rest) ← unary inner ts
    pure (-value, ⟨rest.val, Nat.lt_succ_of_lt rest.property⟩)
  | .binary .add :: ts => do
    let (value, rest) ← unary inner ts
    pure (value, ⟨rest.val, Nat.lt_succ_of_lt rest.property⟩)
  | ts => primary inner ts

def binary (inner : Operand) : Operand :=
  chain 0 (chain 1 (chain 2 (chain 3 (chain 4 (chain 5 (unary inner))))))

/-- Read an assignment or an expression without one. A compound assignment reads its variable after its
right side was computed. -/
def assignment (inner : Operand) : Operand
  | .name target :: .assign op :: ts => do
    let (right, rest) ← assignment inner ts
    let value ← match op with
      | none => pure right
      | some op => chainFrom.liftExcept (op.apply (← readVariable target) right)
    modify fun env => env.set target (toString value)
    pure (value, ⟨rest.val, Nat.lt_succ_of_lt (Nat.lt_succ_of_lt rest.property)⟩)
  | ts => binary inner ts

def listFrom (inner : Operand) (value : Int32) :
    (ts : List Token) → Computing (Int32 × NotLonger ts)
  | .comma :: ts => do
    let (next, rest) ← assignment inner ts
    let (last, after) ← listFrom inner next rest.val
    pure (last, ⟨after.val, Nat.le_trans after.property
      (Nat.le_of_lt (Nat.lt_succ_of_lt rest.property))⟩)
  | ts => pure (value, ⟨ts, Nat.le_refl _⟩)
  termination_by ts => ts.length
  decreasing_by exact Nat.lt_succ_of_lt rest.property

/-- Read a list of expressions whose parentheses nest less than `depth` levels. -/
def expressions : Nat → Operand
  | 0 => fun _ => throw (.fault .missingOperand)
  | depth + 1 => fun ts => do
    let (first, rest) ← assignment (expressions depth) ts
    let (last, after) ← listFrom (expressions depth) first rest.val
    pure (last, ⟨after.val, Nat.lt_of_le_of_lt after.property rest.property⟩)

/-- The value of a list of tokens, which has to be an expression to its end. -/
def evaluateTokens (ts : List Token) : Computing Int32 := do
  if ts.isEmpty then throw (.fault .missingOperand)
  let (value, rest) ← expressions (ts.length + 1) ts
  match rest.val with
  | [] => pure value
  | .closeParen :: _ => throw (.fault .unbalancedParenthesis)
  | _ :: _ => throw (.fault .missingOperator)

/-- The value of an expression, or why there is none, and the variables after its assignments. -/
def evaluate (text : String) (env : Environment) : Except Stop Int32 × Environment :=
  match tokens text.toList with
  | .error e => (.error e, env)
  | .ok ts => (evaluateTokens ts).run env

end BatchShell.Arithmetic
