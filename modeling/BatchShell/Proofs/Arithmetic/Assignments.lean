import BatchShell.Arithmetic.Eval
import BatchShell.Proofs.Environment.Scopes

/-!
# What computing an expression can change

An expression assigns variables in the innermost frame and does nothing else to the environment, whether
it has a value or not (`evaluate_sameBelow`). Each reader of the expression language is shown to
assign only (`Assigns`), given that the reader of its operands does.
-/
namespace BatchShell.Arithmetic

open Environment

/-- Whatever comes of a computation, only the innermost frame may differ afterwards. -/
def Assigns {α : Type} (c : Computing α) : Prop := ∀ env, SameBelow env (c.run env).2

namespace Assigns

variable {α β : Type}

theorem pure (a : α) : Assigns (Pure.pure a : Computing α) := fun env => SameBelow.refl env

theorem throw (stop : Stop) : Assigns (MonadExcept.throw stop : Computing α) :=
  fun env => SameBelow.refl env

theorem get : Assigns (MonadState.get : Computing Environment) := fun env => SameBelow.refl env

theorem modify_set (name value : String) :
    Assigns (modify fun env => env.set name value : Computing Unit) :=
  fun env => SameBelow.set env name value

theorem bind {c : Computing α} {next : α → Computing β} (hc : Assigns c) (hnext : ∀ a, Assigns (next a)) :
    Assigns (c >>= next) := by
  intro env
  have h := hc env
  show SameBelow env (ExceptT.bindCont next (c.run env).1 (c.run env).2).2
  cases hr : (c.run env).1 with
  | ok a => exact h.trans (hnext a _)
  | error stop => exact h

theorem readVariable (name : String) : Assigns (readVariable name) := by
  refine bind get fun env => ?_
  split
  · exact pure _
  · exact throw _

theorem liftExcept (value : Except Fault Int32) : Assigns (chainFrom.liftExcept value) := by
  cases value with
  | ok n => exact pure n
  | error fault => exact throw _

theorem chainFrom {level : Nat} {operand : Operand} (hoperand : ∀ ts, Assigns (operand ts)) (left : Int32)
    (ts : List Token) : Assigns (chainFrom level operand left ts) := by
  fun_induction Arithmetic.chainFrom level operand left ts with
  | case1 left => exact pure _
  | case2 left ts op hlevel ih =>
    refine bind (hoperand ts) fun ⟨right, rest⟩ => bind (liftExcept _) fun value => ?_
    exact bind (ih rest value) fun ⟨total, after⟩ => pure _
  | case3 left ts op hlevel => exact pure _
  | case4 left t ts hne => exact pure _

theorem chain {level : Nat} {operand : Operand} (hoperand : ∀ ts, Assigns (operand ts)) (ts : List Token) :
    Assigns (chain level operand ts) :=
  bind (hoperand ts) fun ⟨left, rest⟩ => bind (chainFrom hoperand left rest.val) fun ⟨_, _⟩ => pure _

theorem primary {inner : Operand} (hinner : ∀ ts, Assigns (inner ts)) (ts : List Token) :
    Assigns (primary inner ts) := by
  unfold Arithmetic.primary
  split
  · exact pure _
  · exact bind (readVariable _) fun value => pure _
  · refine bind (hinner _) fun ⟨value, rest⟩ => ?_
    dsimp only
    split
    · exact pure _
    · exact throw _
  · exact throw _

theorem unary {inner : Operand} (hinner : ∀ ts, Assigns (inner ts)) (ts : List Token) :
    Assigns (unary inner ts) := by
  fun_induction Arithmetic.unary inner ts with
  | case1 ts ih => exact bind ih fun ⟨_, _⟩ => pure _
  | case2 ts ih => exact bind ih fun ⟨_, _⟩ => pure _
  | case3 ts ih => exact bind ih fun ⟨_, _⟩ => pure _
  | case4 ts ih => exact bind ih fun ⟨_, _⟩ => pure _
  | case5 ts => exact primary hinner ts

theorem binary {inner : Operand} (hinner : ∀ ts, Assigns (inner ts)) (ts : List Token) :
    Assigns (binary inner ts) :=
  chain (chain (chain (chain (chain (chain (unary hinner)))))) ts

/-- An assignment computes its right side, reads its variable if it is a compound one, and assigns. -/
theorem assignment {inner : Operand} (hinner : ∀ ts, Assigns (inner ts)) (ts : List Token) :
    Assigns (assignment inner ts) := by
  fun_induction Arithmetic.assignment inner ts with
  | case1 target op ts ih =>
    refine bind ih fun ⟨right, rest⟩ => ?_
    cases op with
    | none => exact bind (pure right) fun value => bind (modify_set _ _) fun _ => pure _
    | some op =>
      refine bind (readVariable _) fun held => bind (liftExcept _) fun value => ?_
      exact bind (modify_set _ _) fun _ => pure _
  | case2 ts => exact binary hinner ts

theorem listFrom {inner : Operand} (hinner : ∀ ts, Assigns (inner ts)) (value : Int32) (ts : List Token) :
    Assigns (listFrom inner value ts) := by
  fun_induction Arithmetic.listFrom inner value ts with
  | case1 value ts ih =>
    refine bind (assignment hinner ts) fun ⟨next, rest⟩ => ?_
    exact bind (ih next rest) fun ⟨_, _⟩ => pure _
  | case2 value ts => exact pure _

theorem expressions (depth : Nat) : ∀ ts, Assigns (expressions depth ts) := by
  induction depth with
  | zero => intro ts; exact throw _
  | succ depth ih =>
    intro ts
    refine bind (assignment ih ts) fun ⟨first, rest⟩ => ?_
    exact bind (listFrom ih first rest.val) fun ⟨_, _⟩ => pure _

theorem evaluateTokens (ts : List Token) : Assigns (evaluateTokens ts) := by
  unfold Arithmetic.evaluateTokens
  split
  · exact throw _
  · refine bind (expressions _ ts) fun ⟨value, rest⟩ => ?_
    dsimp only
    split
    · exact pure _
    · exact throw _
    · exact throw _

end Assigns

/-- Computing an expression changes the innermost frame only. -/
theorem evaluate_sameBelow (text : String) (env : Environment) : SameBelow env (evaluate text env).2 := by
  unfold evaluate
  split
  · exact SameBelow.refl env
  · exact Assigns.evaluateTokens _ env

end BatchShell.Arithmetic
