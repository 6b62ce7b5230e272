import Mathlib.Algebra.Ring.Int.Defs
import Mathlib.Algebra.Ring.Nat
import BatchShell.Arithmetic.Eval
import BatchShell.Proofs.Engine.Transparency
import BatchShell.Proofs.Numeral.Decimal

/-!
# Expressions and their values

An expression as a tree (`Expr`), and the value it has (`Expr.value`). Values are computed from left to right. All
that computing needs to know of the variables is the number that each holds at the start and the assignments made
since (`Ledger`), so there are neither tokens nor texts here. An operation is done on integers, or bit by bit, and
its result taken into 32 bits (`BinaryOp.value`). There is no value if an operation divides by zero, or if reading a
variable breaks off.

On the variables themselves an assignment writes the number down in decimal, and a name is read back from its text.
`Expr.run` computes in this way, and `Expr.run_value` says that it makes no difference.

* `BinaryOp.apply_eq`: the operations of the machine are those on integers.
* `Ledger.get?_perform`: what the assignments of a ledger make of an environment.
-/
namespace BatchShell

namespace Arithmetic

/-! ## Operations -/

/-- The signs before an operand. -/
inductive UnaryOp where
  | not
  | complement
  | negate
  | plus
  deriving DecidableEq

/-- The value of a sign before an operand. The complement of a number is one less than its negative. -/
def UnaryOp.value (op : UnaryOp) (a : Int32) : Int32 :=
  match op with
  | .not => if a.toInt = 0 then 1 else 0
  | .complement => .ofInt (-a.toInt - 1)
  | .negate => .ofInt (-a.toInt)
  | .plus => a

/-- The bits of a number in two's complement. -/
def bits (a : Int32) : Nat := (a.toInt % 2 ^ 32).toNat

/-- Combine the bits of two numbers. -/
def bitwise (f : Bool → Bool → Bool) (a b : Int32) : Int32 := .ofNat (Nat.bitwise f (bits a) (bits b))

/-- How far a count shifts. -/
def shiftCount (b : Int32) : Nat := (b.toInt % 32).toNat

/-- The value of an operation on integers, taken into 32 bits; there is none for a division by zero. Quotients
are rounded towards zero, and a shift to the right rounds down. -/
def BinaryOp.value (op : BinaryOp) (a b : Int32) : Option Int32 :=
  match op with
  | .or => some (bitwise (· || ·) a b)
  | .xor => some (bitwise (· ^^ ·) a b)
  | .and => some (bitwise (· && ·) a b)
  | .shiftLeft => some (.ofInt (a.toInt * 2 ^ shiftCount b))
  | .shiftRight => some (.ofInt (a.toInt / 2 ^ shiftCount b))
  | .add => some (.ofInt (a.toInt + b.toInt))
  | .sub => some (.ofInt (a.toInt - b.toInt))
  | .mul => some (.ofInt (a.toInt * b.toInt))
  | .div => if b.toInt = 0 then none else some (.ofInt (a.toInt.tdiv b.toInt))
  | .rem => if b.toInt = 0 then none else some (.ofInt (a.toInt.tmod b.toInt))

/-- What comes of an operation: its value, or the fault of a division by zero. -/
def outcome : Option Int32 → Except Fault Int32
  | some v => .ok v
  | none => .error .divideByZero

/-- The same for a computation, which an operation without a value stops. -/
def total : Option Int32 → Except Stop Int32
  | some v => .ok v
  | none => .error (.fault .divideByZero)

/-- A word is its two's complement. -/
theorem toNat_toBitVec (a : Int32) : a.toBitVec.toNat = bits a := by
  have hlt := a.toBitVec.isLt
  have hbits : a.toInt % 2 ^ 32 = (a.toBitVec.toNat : Int) % 2 ^ 32 := by
    rw [← Int32.toInt_toBitVec, BitVec.toInt_eq_toNat_bmod]
    exact Int.bmod_emod
  unfold bits
  omega

theorem bits_lt (a : Int32) : bits a < 2 ^ 32 := toNat_toBitVec a ▸ a.toBitVec.isLt

/-- A word whose bits are the combined ones is the combination. -/
theorem eq_bitwise {f : Bool → Bool → Bool} {a b c : Int32}
    (h : c.toBitVec.toNat = Nat.bitwise f a.toBitVec.toNat b.toBitVec.toNat) : c = bitwise f a b := by
  refine Int32.toBitVec_inj.mp (BitVec.eq_of_toNat_eq ?_)
  rw [h, bitwise, Int32.toBitVec_ofNat', BitVec.toNat_ofNat, toNat_toBitVec, toNat_toBitVec,
    Nat.mod_eq_of_lt (Nat.bitwise_lt_two_pow (bits_lt a) (bits_lt b))]

/-- Only the low five bits of a count matter. -/
theorem toNat_smod (b : Int32) : (b.toBitVec.smod 32).toNat = shiftCount b := by
  have hint : (b.toBitVec.smod 32).toInt = b.toInt % 32 := by
    rw [BitVec.toInt_smod, Int32.toInt_toBitVec, show (32 : BitVec 32).toInt = 32 from rfl,
      Int.fmod_eq_emod_of_nonneg _ (by decide)]
  have hlt := (b.toBitVec.smod 32).isLt
  rw [BitVec.toInt_eq_toNat_bmod, Int.bmod_def] at hint
  unfold shiftCount
  omega

theorem shiftLeft_eq (a b : Int32) : a <<< b = .ofInt (a.toInt * 2 ^ shiftCount b) := by
  rw [← Int32.toInt_inj, ← Int32.toInt_toBitVec, Int32.toBitVec_shiftLeft, BitVec.shiftLeft_eq', toNat_smod,
    BitVec.toInt_shiftLeft, Nat.shiftLeft_eq, Int32.toInt_ofInt, ← Int32.toInt_toBitVec, BitVec.toInt_eq_toNat_bmod]
  push_cast
  exact (Int.bmod_mul_bmod).symm

theorem shiftRight_eq (a b : Int32) : a >>> b = .ofInt (a.toInt / 2 ^ shiftCount b) := by
  have hpow : (0 : Int) < 2 ^ shiftCount b := Int.pow_pos (by decide)
  have hscale : (2 ^ 31 : Int) * 1 ≤ 2 ^ 31 * 2 ^ shiftCount b :=
    Int.mul_le_mul_of_nonneg_left hpow (by decide)
  have hlowest := Int32.le_toInt a
  have hhighest := Int32.toInt_lt a
  -- The quotient is not further from zero than the number.
  have hlow : -2 ^ 31 ≤ a.toInt / 2 ^ shiftCount b := by
    rw [Int.le_ediv_iff_mul_le hpow, Int.neg_mul]
    omega
  have hhigh : a.toInt / 2 ^ shiftCount b < 2 ^ 31 := by
    rw [Int.ediv_lt_iff_lt_mul hpow]
    omega
  rw [← Int32.toInt_inj, ← Int32.toInt_toBitVec, Int32.toBitVec_shiftRight, BitVec.sshiftRight_eq', toNat_smod,
    BitVec.toInt_sshiftRight, Int.shiftRight_eq_div_pow, Int32.toInt_toBitVec, Int32.toInt_ofInt_of_le hlow hhigh]
  push_cast
  rfl

/-- The operations of the machine are those on integers. -/
theorem BinaryOp.apply_eq (op : BinaryOp) (a b : Int32) : op.apply a b = outcome (op.value a b) := by
  have hzero : b = 0 ↔ b.toInt = 0 := by rw [← Int32.toInt_inj]; rfl
  cases op with
  | or => exact congrArg Except.ok (eq_bitwise (BitVec.toNat_or ..))
  | xor => exact congrArg Except.ok (eq_bitwise (BitVec.toNat_xor ..))
  | and => exact congrArg Except.ok (eq_bitwise (BitVec.toNat_and ..))
  | shiftLeft => rw [apply, value, outcome, shiftLeft_eq]
  | shiftRight => rw [apply, value, outcome, shiftRight_eq]
  | add => simp [apply, value, outcome, Int32.ofInt_add]
  | sub => simp [apply, value, outcome, Int32.ofInt_sub]
  | mul => simp [apply, value, outcome, Int32.ofInt_mul]
  | div =>
    by_cases h : b = 0
    · simp [apply, value, outcome, h]
    · have hdiv : a / b = .ofInt (a.toInt.tdiv b.toInt) := by
        rw [← Int32.toInt_inj, Int32.toInt_div, Int32.toInt_ofInt]
      simp [apply, value, outcome, h, hzero.not.mp h, hdiv]
  | rem =>
    by_cases h : b = 0
    · simp [apply, value, outcome, h]
    · have hrem : a % b = .ofInt (a.toInt.tmod b.toInt) := by
        rw [← Int32.toInt_mod, Int32.ofInt_toInt]
      simp [apply, value, outcome, h, hzero.not.mp h, hrem]

/-! ## Expressions -/

/-- Is the text a name? -/
def isName (text : String) : Bool :=
  match text.toList with
  | [] => false
  | c :: cs => (Text.isLetter c || c == '_') && cs.all inName

/-- A name that an expression can use. -/
structure Ident where
  text : String
  valid : isName text = true := by decide

/-- An expression. An assignment may apply an operation to what its variable holds. -/
inductive Expr where
  | const (n : Fin (2 ^ 31))
  | name (x : Ident)
  | unary (op : UnaryOp) (a : Expr)
  | binary (op : BinaryOp) (a b : Expr)
  | assign (x : Ident) (op : Option BinaryOp) (a : Expr)
  | comma (a b : Expr)

/-- The assignments made so far, the latest first. -/
abbrev Ledger := List (Ident × Int32)

/-- What was last assigned to a variable. -/
def Ledger.find? (done : Ledger) (name : String) : Option Int32 :=
  (List.find? (fun entry => Text.upper name == Text.upper entry.1.text) done).map (·.2)

/-- The number that a variable holds: the one last assigned, or that at the start. -/
def Ledger.held (start : String → Except Crash Int32) (done : Ledger) (name : String) : Except Stop Int32 :=
  match done.find? name with
  | some v => .ok v
  | none => (start name).mapError .crashed

/-- What is assigned, given the value of the right side: that value, or what an operation makes of the variable and
it. -/
def Ledger.assigned (start : String → Except Crash Int32) (done : Ledger) (name : String) (op : Option BinaryOp)
    (v : Int32) : Except Stop Int32 :=
  match op with
  | none => .ok v
  | some op =>
    match done.held start name with
    | .error stop => .error stop
    | .ok u => total (op.value u v)

/-- The value of an expression, if it has one, and the assignments made up to its end or to what stopped it. `start`
is what each variable holds before any of them. -/
def Expr.value (start : String → Except Crash Int32) : Expr → Ledger → Except Stop Int32 × Ledger
  | .const n, done => (.ok (.ofNat n), done)
  | .name x, done => (done.held start x.text, done)
  | .unary op a, done =>
    match a.value start done with
    | (.error stop, done) => (.error stop, done)
    | (.ok v, done) => (.ok (op.value v), done)
  | .binary op a b, done =>
    match a.value start done with
    | (.error stop, done) => (.error stop, done)
    | (.ok v, done) =>
      match b.value start done with
      | (.error stop, done) => (.error stop, done)
      | (.ok w, done) => (total (op.value v w), done)
  | .assign x op a, done =>
    match a.value start done with
    | (.error stop, done) => (.error stop, done)
    | (.ok v, done) =>
      match done.assigned start x.text op v with
      | .error stop => (.error stop, done)
      | .ok w => (.ok w, (x, w) :: done)
  | .comma a b, done =>
    match a.value start done with
    | (.error stop, done) => (.error stop, done)
    | (.ok _, done) => b.value start done

/-- The names that an expression uses. -/
def Expr.idents : Expr → List Ident
  | .const _ => []
  | .name x => [x]
  | .unary _ a => a.idents
  | .binary _ a b | .comma a b => a.idents ++ b.idents
  | .assign x _ a => x :: a.idents

/-! ## What stops a computation -/

/-- An expression that uses the names `xs` is stopped by a division by zero or by reading one of them. -/
def Halts (start : String → Except Crash Int32) (xs : List Ident) (stop : Stop) : Prop :=
  stop = .fault .divideByZero ∨ ∃ why, stop = .crashed why ∧ ∃ x ∈ xs, start x.text = .error why

section

variable {start : String → Except Crash Int32} {xs ys : List Ident} {stop : Stop} {done : Ledger}

theorem Halts.mono (h : Halts start xs stop) (hsub : xs ⊆ ys) : Halts start ys stop :=
  h.imp_right fun ⟨why, hwhy, x, hx, hread⟩ => ⟨why, hwhy, x, hsub hx, hread⟩

theorem Halts.of_total {v : Option Int32} (h : total v = .error stop) : Halts start xs stop := by
  cases v with
  | some v => cases h
  | none =>
    cases h
    exact .inl rfl

theorem Halts.of_held {x : Ident} (hx : x ∈ xs) (h : done.held start x.text = .error stop) :
    Halts start xs stop := by
  unfold Ledger.held at h
  split at h
  · cases h
  · cases hread : start x.text with
    | ok v => simp [hread, Except.mapError] at h
    | error why =>
      rw [hread] at h
      cases h
      exact .inr ⟨why, rfl, x, hx, hread⟩

theorem Halts.of_assigned {x : Ident} {op : Option BinaryOp} {v : Int32} (hx : x ∈ xs)
    (h : done.assigned start x.text op v = .error stop) : Halts start xs stop := by
  unfold Ledger.assigned at h
  split at h
  · cases h
  · split at h
    · rename_i hheld
      cases h
      exact .of_held hx hheld
    · exact .of_total h

/-- Nothing else stops an expression. -/
theorem Expr.halts_of_value (e : Expr) : ∀ {done stop after}, e.value start done = (.error stop, after) →
    Halts start e.idents stop := by
  induction e with
  | const n =>
    intro done stop after h
    cases h
  | name x =>
    intro done stop after h
    exact .of_held List.mem_cons_self (congrArg Prod.fst h)
  | unary op a ih =>
    intro done stop after h
    rw [value] at h
    split at h
    · rename_i ha
      cases h
      exact ih ha
    · cases h
  | binary op a b iha ihb =>
    intro done stop after h
    rw [value] at h
    split at h
    · rename_i ha
      cases h
      exact (iha ha).mono (List.subset_append_left _ _)
    · split at h
      · rename_i hb
        cases h
        exact (ihb hb).mono (List.subset_append_right _ _)
      · exact .of_total (congrArg Prod.fst h)
  | assign x op a ih =>
    intro done stop after h
    rw [value] at h
    split at h
    · rename_i ha
      cases h
      exact (ih ha).mono (List.subset_cons_self _ _)
    · split at h
      · rename_i hassigned
        cases h
        exact .of_assigned List.mem_cons_self hassigned
      · cases h
  | comma a b iha ihb =>
    intro done stop after h
    rw [value] at h
    split at h
    · rename_i ha
      cases h
      exact (iha ha).mono (List.subset_append_left _ _)
    · exact (ihb h).mono (List.subset_append_right _ _)

end

/-! ## On the variables themselves -/

/-- The number that the text of a variable stands for, without the white space around it. A variable that is not
defined, or whose text is no number, stands for zero. -/
def startOf (env : Environment) (name : String) : Except Crash Int32 :=
  match env.get? name with
  | none => .ok 0
  | some text =>
    match Numeral.parse32 (Text.trim text) with
    | .error why => .error why
    | .ok none => .ok 0
    | .ok (some v) => .ok v

/-- Make the assignments. -/
def Ledger.perform (done : Ledger) (env : Environment) : Environment :=
  done.foldr (fun entry env => env.set entry.1.text (toString entry.2)) env

/-- Afterwards the variables that were assigned have the decimal texts of their values, and all others are as they
were. -/
theorem Ledger.get?_perform (done : Ledger) (env : Environment) (name : String) :
    (done.perform env).get? name =
      match done.find? name with
      | some v => some (toString v)
      | none => env.get? name := by
  induction done with
  | nil => rfl
  | cons entry done ih =>
    rw [perform, List.foldr_cons, Environment.get?_set]
    by_cases h : Text.upper name = Text.upper entry.1.text
    · simp [Ledger.find?, h]
    · have hfind : Ledger.find? (entry :: done) name = Ledger.find? done name := by simp [Ledger.find?, h]
      rw [if_neg h, hfind]
      exact ih

theorem variableValue_eq_startOf (env : Environment) (name : String) : variableValue env name = startOf env name := by
  rw [variableValue, startOf]
  cases env.get? name with
  | none => rfl
  | some text =>
    dsimp only
    rcases Numeral.parse32 (Text.trim text) with _ | _ | _ <;> rfl

/-- What comes after a computation happens to the variables it leaves, unless it failed. -/
theorem run_bind {α β : Type} (c : Computing α) (next : α → Computing β) (env : Environment) :
    (c >>= next).run env =
      match c.run env with
      | (.ok a, env) => (next a).run env
      | (.error stop, env) => (.error stop, env) := by
  show ExceptT.bindCont next (c.run env).1 (c.run env).2 = _
  rcases c.run env with ⟨_ | _, _⟩ <;> rfl

/-- A variable that is read after the assignments holds what the ledger says. -/
theorem run_readVariable (done : Ledger) (env : Environment) (name : String) :
    (readVariable name).run (done.perform env) = (done.held (startOf env) name, done.perform env) := by
  have hread : (readVariable name).run (done.perform env) =
      ((variableValue (done.perform env) name).mapError .crashed, done.perform env) := by
    have hget : (get : Computing Environment).run (done.perform env) = (.ok (done.perform env), done.perform env) := rfl
    rw [readVariable, run_bind, hget]
    dsimp only
    cases variableValue (done.perform env) name <;> rfl
  rw [hread, Ledger.held]
  cases hfind : done.find? name with
  | some v =>
    rw [variableValue, Ledger.get?_perform, hfind]
    dsimp only
    rw [Numeral.trim_toString, Numeral.parse32_toString]
    rfl
  | none =>
    have hsame : (done.perform env).get? name = env.get? name := by rw [Ledger.get?_perform, hfind]
    rw [variableValue, hsame, ← variableValue, variableValue_eq_startOf]

/-- Assign the value of a right side, or what an operation makes of the variable and that value. -/
def store (name : String) (op : Option BinaryOp) (v : Int32) : Computing Int32 := do
  let w ← match op with
    | none => pure v
    | some op => do
      let u ← readVariable name
      chainFrom.liftExcept (op.apply u v)
  modify fun env => env.set name (toString w)
  pure w

/-- The value of an expression, read from the variables and assigned to them. -/
def Expr.run : Expr → Computing Int32
  | .const n => pure (.ofNat n)
  | .name x => readVariable x.text
  | .unary op a => do pure (op.value (← a.run))
  | .binary op a b => do
    let v ← a.run
    let w ← b.run
    chainFrom.liftExcept (op.apply v w)
  | .assign x op a => do
    let v ← a.run
    store x.text op v
  | .comma a b => do
    let _ ← a.run
    b.run

theorem run_liftExcept (op : BinaryOp) (a b : Int32) (env : Environment) :
    (chainFrom.liftExcept (op.apply a b)).run env = (total (op.value a b), env) := by
  rw [BinaryOp.apply_eq]
  cases op.value a b <;> rfl

theorem run_store (x : Ident) (op : Option BinaryOp) (v : Int32) (env : Environment) (done : Ledger) :
    (store x.text op v).run (done.perform env) =
      match done.assigned (startOf env) x.text op v with
      | .error stop => (.error stop, done.perform env)
      | .ok w => (.ok w, Ledger.perform ((x, w) :: done) env) := by
  cases op with
  | none => rfl
  | some op =>
    rw [store, run_bind, run_readVariable, Ledger.assigned]
    rcases done.held (startOf env) x.text with stop | u
    · rfl
    · dsimp only
      rw [run_bind, run_liftExcept]
      rcases op.value u v with _ | w <;> rfl

/-- **Reading the variables and assigning to them computes the value of an expression.** -/
theorem Expr.run_value (e : Expr) (env : Environment) (done : Ledger) :
    e.run.run (done.perform env) =
      ((e.value (startOf env) done).1, (e.value (startOf env) done).2.perform env) := by
  induction e generalizing done with
  | const n => rfl
  | name x => exact run_readVariable done env x.text
  | unary op a ih =>
    rw [run, run_bind, ih, value]
    rcases a.value (startOf env) done with ⟨_ | v, done⟩ <;> rfl
  | binary op a b iha ihb =>
    rw [run, run_bind, iha, value]
    rcases a.value (startOf env) done with ⟨_ | v, done⟩
    · rfl
    · dsimp only
      rw [run_bind, ihb]
      rcases b.value (startOf env) done with ⟨_ | w, done⟩
      · rfl
      · exact run_liftExcept op v w _
  | assign x op a ih =>
    rw [run, run_bind, ih, value]
    rcases a.value (startOf env) done with ⟨_ | v, done⟩
    · rfl
    · dsimp only
      rw [run_store]
      rcases done.assigned (startOf env) x.text op v with _ | w <;> rfl
  | comma a b iha ihb =>
    rw [run, run_bind, iha, value]
    rcases a.value (startOf env) done with ⟨_ | v, done⟩
    · rfl
    · exact ihb done

end Arithmetic

end BatchShell
