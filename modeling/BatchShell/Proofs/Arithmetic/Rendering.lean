import Mathlib.Tactic.IntervalCases
import BatchShell.Proofs.Arithmetic.Expression

/-!
# Expressions as tokens

An expression can be written in many ways, which differ in their parentheses (`Renders`). Where an operand stands
decides which expressions need parentheses there. The places are numbered from loose to tight: a member of a list
stands at 0 or 1, an operand of an operator of level `n` at `n + 2` or `n + 3`, the operand of a sign at 8 and what
stands alone at 9. One writing has parentheses around every operation (`Expr.full`), another only where the places ask
for them (`Expr.minimal`), and no writing has fewer (`Renders.minimal_le`).

The reader of a place computes what was written there and goes on with what follows. It stops there if nothing that
follows can be joined to a place as tight as this one (`Tight`).

* `Renders.read`: any writing, read at its place, computes the expression.
* `Renders.evaluateTokens`: so does reading it as a whole.
-/
namespace BatchShell.Arithmetic

/-! ## Writings -/

/-- The token of a sign. -/
def UnaryOp.token : UnaryOp → Token
  | .not => .not
  | .complement => .complement
  | .negate => .binary .sub
  | .plus => .binary .add

/-- Put tokens in parentheses. -/
def parens (ts : List Token) : List Token := .openParen :: ts ++ [.closeParen]

theorem parens_append (ts rest : List Token) : parens ts ++ rest = .openParen :: (ts ++ .closeParen :: rest) := by
  simp [parens]

theorem length_parens (ts : List Token) : (parens ts).length = ts.length + 2 := by simp [parens]

/-- The ways to write an expression at a place. Any expression may stand in parentheses anywhere. -/
inductive Renders : Nat → Expr → List Token → Prop where
  | const (n) : Renders 9 (.const n) [.number (.ofNat n)]
  | name (x : Ident) : Renders 9 (.name x) [.name x.text]
  | parens {e ts} : Renders 0 e ts → Renders 9 e (parens ts)
  | unary (op : UnaryOp) {a ts} : Renders 8 a ts → Renders 8 (.unary op a) (op.token :: ts)
  | binary (op : BinaryOp) {a b ts us} : Renders (op.level + 2) a ts → Renders (op.level + 3) b us →
      Renders (op.level + 2) (.binary op a b) (ts ++ .binary op :: us)
  | assign (x : Ident) (op : Option BinaryOp) {a ts} : Renders 1 a ts →
      Renders 1 (.assign x op a) (.name x.text :: .assign op :: ts)
  | comma {a b ts us} : Renders 0 a ts → Renders 1 b us → Renders 0 (.comma a b) (ts ++ .comma :: us)
  | looser {p e ts} : Renders (p + 1) e ts → Renders p e ts

/-- Parentheses around every operation. -/
def Expr.full : Expr → List Token
  | .const n => [.number (.ofNat n)]
  | .name x => [.name x.text]
  | .unary op a => parens (op.token :: a.full)
  | .binary op a b => parens (a.full ++ .binary op :: b.full)
  | .assign x op a => parens (.name x.text :: .assign op :: a.full)
  | .comma a b => parens (a.full ++ .comma :: b.full)

/-- Parentheses where what would stand at place `p` belongs to the looser place `own`. -/
def enclose (p own : Nat) (ts : List Token) : List Token := if p ≤ own then ts else parens ts

/-- Parentheses only where place `p` and the places of the operands ask for them. -/
def Expr.minimal (p : Nat) : Expr → List Token
  | .const n => [.number (.ofNat n)]
  | .name x => [.name x.text]
  | .unary op a => enclose p 8 (op.token :: a.minimal 8)
  | .binary op a b =>
    enclose p (op.level + 2) (a.minimal (op.level + 2) ++ .binary op :: b.minimal (op.level + 3))
  | .assign x op a => enclose p 1 (.name x.text :: .assign op :: a.minimal 1)
  | .comma a b => enclose p 0 (a.minimal 0 ++ .comma :: b.minimal 1)

theorem BinaryOp.level_le (op : BinaryOp) : op.level ≤ 5 := by cases op <;> decide

namespace Renders

variable {p q : Nat} {e : Expr} {ts : List Token}

/-- What may stand at a place may stand at a looser one. -/
theorem mono (h : Renders q e ts) (hle : p ≤ q) : Renders p e ts := by
  induction hle with
  | refl => exact h
  | step _ ih => exact ih h.looser

theorem full (e : Expr) : Renders 9 e e.full := by
  induction e with
  | const n => exact .const n
  | name x => exact .name x
  | unary op a ih => exact .parens ((ih.mono (by decide)).unary op |>.mono (by decide))
  | binary op a b iha ihb =>
    have hop := op.level_le
    exact .parens (((iha.mono (by omega)).binary op (ihb.mono (by omega))).mono (by omega))
  | assign x op a ih => exact .parens ((ih.mono (by decide)).assign x op |>.mono (by decide))
  | comma a b iha ihb => exact .parens ((iha.mono (by decide)).comma (ihb.mono (by decide)))

theorem enclose {own : Nat} (hp : p ≤ 9) (h : Renders own e ts) : Renders p e (enclose p own ts) := by
  unfold Arithmetic.enclose
  split
  · exact h.mono ‹_›
  · exact (h.mono (Nat.zero_le _)).parens.mono hp

theorem minimal (e : Expr) (hp : p ≤ 9) : Renders p e (e.minimal p) := by
  induction e generalizing p with
  | const n => exact (Renders.const n).mono hp
  | name x => exact (Renders.name x).mono hp
  | unary op a ih => exact enclose hp ((ih (by decide)).unary op)
  | binary op a b iha ihb =>
    have hop := op.level_le
    exact enclose hp ((iha (by omega)).binary op (ihb (by omega)))
  | assign x op a ih => exact enclose hp ((ih (by decide)).assign x op)
  | comma a b iha ihb => exact enclose hp ((iha (by decide)).comma (ihb (by decide)))

theorem le_nine (h : Renders p e ts) : p ≤ 9 := by
  induction h with
  | binary op _ _ _ _ => have := op.level_le; omega
  | looser _ ih => omega
  | _ => omega

end Renders

/-! ## No writing has fewer parentheses -/

theorem count_parens (ts : List Token) : (parens ts).count .openParen = ts.count .openParen + 1 := by
  simp [parens, List.count_append]

theorem count_enclose (p own : Nat) (ts : List Token) :
    (enclose p own ts).count .openParen = ts.count .openParen + if p ≤ own then 0 else 1 := by
  unfold enclose
  split
  · rfl
  · exact count_parens ts

theorem UnaryOp.token_ne_openParen (op : UnaryOp) : op.token ≠ .openParen := by cases op <;> decide

/-- A tighter place asks for at most one more pair of parentheses, and a looser one for none. -/
theorem count_minimal {p q : Nat} (hle : p ≤ q) (e : Expr) :
    (e.minimal p).count .openParen ≤ (e.minimal q).count .openParen ∧
      (e.minimal q).count .openParen ≤ (e.minimal p).count .openParen + 1 := by
  cases e <;> simp only [Expr.minimal, count_enclose] <;> grind

theorem Renders.minimal_le {p : Nat} {e : Expr} {ts : List Token} (h : Renders p e ts) :
    (e.minimal p).count .openParen ≤ ts.count .openParen := by
  induction h with
  | const n => exact Nat.le_refl _
  | name x => exact Nat.le_refl _
  | @parens e ts _ ih =>
    have := (count_minimal (Nat.zero_le 9) e).2
    rw [count_parens]
    omega
  | unary op _ ih =>
    simpa [Expr.minimal, Arithmetic.enclose, List.count_cons_of_ne op.token_ne_openParen] using ih
  | binary op _ _ iha ihb =>
    simp [Expr.minimal, Arithmetic.enclose, List.count_append]
    omega
  | assign x op _ ih => simpa [Expr.minimal, Arithmetic.enclose] using ih
  | comma _ _ iha ihb =>
    simp [Expr.minimal, Arithmetic.enclose, List.count_append]
    omega
  | @looser p e ts _ ih => exact Nat.le_trans (count_minimal (Nat.le_succ p) e).1 ih

/-! ## What the readers do -/

/-- A reading with what is left, whatever is known of its length. -/
def bare {s : List Token → Prop} (c : Computing (Int32 × { rest // s rest })) : Computing (Int32 × List Token) := do
  let q ← c
  pure (q.1, q.2.val)

theorem bare_pure {s : List Token → Prop} (v : Int32) (rest : { rest // s rest }) :
    bare (pure (v, rest)) = pure (v, rest.val) := pure_bind ..

theorem bare_bind {α : Type} {s : List Token → Prop} (c : Computing α)
    (next : α → Computing (Int32 × { rest // s rest })) : bare (c >>= next) = c >>= fun a => bare (next a) :=
  bind_assoc ..

/-- Nothing else is lost. -/
theorem eq_of_bare {s : List Token → Prop} {c d : Computing (Int32 × { rest // s rest })} (h : bare c = bare d) :
    c = d := by
  funext env
  have hrun : (bare c).run env = (bare d).run env := by rw [h]
  rw [bare, bare, run_bind, run_bind] at hrun
  show c.run env = d.run env
  revert hrun
  rcases c.run env with ⟨_ | ⟨v, rest, hrest⟩, after⟩ <;> rcases d.run env with ⟨_ | ⟨w, left, hleft⟩, after'⟩ <;>
    intro hrun <;> cases hrun
  · rfl
  · rfl

theorem bare_primary_openParen (inner : Operand) (ts : List Token) :
    bare (primary inner (.openParen :: ts)) = (do
      let q ← bare (inner ts)
      match q.2 with
      | .closeParen :: after => pure (q.1, after)
      | _ => throw (.fault .unbalancedParenthesis)) := by
  rw [primary, bare_bind, bare, bind_assoc]
  refine bind_congr fun q => ?_
  rw [pure_bind]
  dsimp only
  split
  · rename_i after h
    simp only [h]
    exact bare_pure ..
  · rename_i h
    split
    · rename_i after h'
      exact absurd h' (h after)
    · rfl

theorem bare_primary_name (inner : Operand) (x : String) (ts : List Token) :
    bare (primary inner (.name x :: ts)) = (do
      let v ← readVariable x
      pure (v, ts)) := by
  rw [primary, bare_bind]
  exact bind_congr fun v => bare_pure ..

/-- A sign applies to what is read after it. -/
theorem bare_unary_token (inner : Operand) (op : UnaryOp) (ts : List Token) :
    bare (unary inner (op.token :: ts)) = (do
      let q ← bare (unary inner ts)
      pure (op.value q.1, q.2)) := by
  cases op <;> rw [UnaryOp.token, unary, bare_bind, bare, bind_assoc] <;>
    refine bind_congr fun ⟨v, rest⟩ => (bare_pure ..).trans ?_ <;> rw [pure_bind, UnaryOp.value]
  · have hzero : v = 0 ↔ v.toInt = 0 := by rw [← Int32.toInt_inj]; rfl
    simp [hzero]
  · rw [Int32.not_eq_neg_sub, Int32.ofInt_sub, Int32.ofInt_neg, Int32.ofInt_toInt]
    rfl
  · rw [Int32.ofInt_neg, Int32.ofInt_toInt]

theorem bare_chain (level : Nat) (operand : Operand) (ts : List Token) :
    bare (chain level operand ts) = (do
      let q ← bare (operand ts)
      bare (chainFrom level operand q.1 q.2)) := by
  rw [chain, bare_bind, bare, bind_assoc]
  refine bind_congr fun q => ?_
  rw [pure_bind, bare_bind]
  rfl

/-- A chain goes on with an operator of its level. -/
theorem bare_chainFrom_binary (op : BinaryOp) (operand : Operand) (v : Int32) (ts : List Token) :
    bare (chainFrom op.level operand v (.binary op :: ts)) = (do
      let q ← bare (operand ts)
      let u ← chainFrom.liftExcept (op.apply v q.1)
      bare (chainFrom op.level operand u q.2)) := by
  rw [chainFrom, if_pos (beq_self_eq_true _), bare_bind, bare, bind_assoc]
  refine bind_congr fun q => ?_
  rw [pure_bind, bare_bind]
  refine bind_congr fun u => ?_
  rw [bare_bind]
  rfl

/-- It stops before anything else. -/
theorem bare_chainFrom_stop {level : Nat} {ts : List Token}
    (h : ∀ op us, ts = .binary op :: us → op.level ≠ level) (operand : Operand) (v : Int32) :
    bare (chainFrom level operand v ts) = pure (v, ts) := by
  cases ts with
  | nil => rw [chainFrom, bare_pure]
  | cons t ts =>
    cases t with
    | binary op => rw [chainFrom, if_neg (by simpa using h op ts rfl), bare_pure]
    | _ => rw [chainFrom, bare_pure]; simp

theorem bare_assignment_name (inner : Operand) (x : String) (op : Option BinaryOp) (ts : List Token) :
    bare (assignment inner (.name x :: .assign op :: ts)) = (do
      let q ← bare (assignment inner ts)
      let w ← store x op q.1
      pure (w, q.2)) := by
  rw [assignment, bare_bind, bare, bind_assoc]
  refine bind_congr fun q => ?_
  rw [pure_bind]
  cases op with
  | none => simp [store, bare]
  | some op => simp [store, bare]

theorem bare_listFrom_comma (inner : Operand) (v : Int32) (ts : List Token) :
    bare (listFrom inner v (.comma :: ts)) = (do
      let q ← bare (assignment inner ts)
      bare (listFrom inner q.1 q.2)) := by
  rw [listFrom, bare_bind, bare, bind_assoc]
  refine bind_congr fun q => ?_
  rw [pure_bind, bare_bind]
  rfl

theorem bare_expressions (depth : Nat) (ts : List Token) :
    bare (expressions (depth + 1) ts) = (do
      let q ← bare (assignment (expressions depth) ts)
      bare (listFrom (expressions depth) q.1 q.2)) := by
  rw [expressions, bare_bind, bare, bind_assoc]
  refine bind_congr fun q => ?_
  rw [pure_bind, bare_bind]
  rfl

/-! ## Reading at a place -/

/-- The readers of the chains, counted from the tightest; the first reads a single operand with its signs. -/
def ladder (inner : Operand) : Nat → Operand
  | 0 => unary inner
  | n + 1 => chain (5 - n) (ladder inner n)

/-- The reader of a place. What stands in parentheses may nest `depth` levels. -/
def reader (depth : Nat) : Nat → Operand
  | 0 => expressions (depth + 1)
  | 1 => assignment (expressions depth)
  | 9 => primary (expressions depth)
  | level + 2 => ladder (expressions depth) (6 - level)

/-- How the reader of a place goes on after it has read something of this value. -/
def goOn (depth p : Nat) (v : Int32) (rest : List Token) : Computing (Int32 × List Token) :=
  match p with
  | 0 => bare (listFrom (expressions depth) v rest)
  | 1 | 8 | 9 => pure (v, rest)
  | level + 2 => bare (chainFrom level (reader depth (level + 3)) v rest)

theorem reader_chain {level : Nat} (h : level ≤ 5) (depth : Nat) :
    reader depth (level + 2) = chain level (reader depth (level + 3)) := by
  interval_cases level <;> rfl

theorem goOn_chain {level : Nat} (h : level ≤ 5) (depth : Nat) (v : Int32) (rest : List Token) :
    goOn depth (level + 2) v rest = bare (chainFrom level (reader depth (level + 3)) v rest) := by
  interval_cases level <;> rfl

/-- What follows has nothing to join to a place tighter than this one. -/
def Tight (p : Nat) : List Token → Prop
  | .assign _ :: _ => False
  | .binary op :: _ => op.level + 2 ≤ p
  | _ => True

theorem Tight.mono {p q : Nat} {rest : List Token} (h : Tight p rest) (hle : p ≤ q) : Tight q rest := by
  unfold Tight at *
  split at h
  · exact h
  · exact Nat.le_trans h hle
  · trivial

/-- A tighter place stops there. -/
theorem Tight.goOn {p q : Nat} {rest : List Token} (h : Tight p rest) (hlt : p < q) (hq : q ≤ 9) (depth : Nat)
    (v : Int32) : goOn depth q v rest = pure (v, rest) := by
  obtain rfl | rfl | rfl | ⟨level, hle, rfl⟩ : q = 1 ∨ q = 8 ∨ q = 9 ∨ ∃ level ≤ 5, q = level + 2 := by
    by_cases hchain : 2 ≤ q ∧ q ≤ 7
    · exact .inr (.inr (.inr ⟨q - 2, by omega, by omega⟩))
    · omega
  · rfl
  · rfl
  · rfl
  · rw [goOn_chain hle]
    refine bare_chainFrom_stop ?_ _ v
    rintro op us rfl
    have : op.level + 2 ≤ p := h
    omega

/-- May the reader of a place leave what it reads to that of the next tighter one? Not if it starts as an assignment,
or with a sign. -/
def Plain (p : Nat) (ts : List Token) : Prop :=
  match p with
  | 1 => ∀ x op us, ts ≠ .name x :: .assign op :: us
  | 8 => ∀ op us, ts ≠ UnaryOp.token op :: us
  | _ => True

theorem bare_reader {p : Nat} (hp : p ≤ 8) {ts : List Token} (h : Plain p ts) (depth : Nat) :
    bare (reader depth p ts) = (do
      let q ← bare (reader depth (p + 1) ts)
      goOn depth p q.1 q.2) := by
  obtain rfl | rfl | rfl | ⟨level, hle, rfl⟩ : p = 0 ∨ p = 1 ∨ p = 8 ∨ ∃ level ≤ 5, p = level + 2 := by
    by_cases hchain : 2 ≤ p ∧ p ≤ 7
    · exact .inr (.inr (.inr ⟨p - 2, by omega, by omega⟩))
    · omega
  · exact bare_expressions depth ts
  · have hbinary : reader depth 1 ts = reader depth 2 ts := by
      show assignment _ ts = binary _ ts
      rw [assignment]
      exact h
    rw [hbinary]
    exact (bind_pure _).symm
  · have hprimary : reader depth 8 ts = reader depth 9 ts := by
      show unary _ ts = primary _ ts
      rw [unary]
      · exact h .not
      · exact h .complement
      · exact h .negate
      · exact h .plus
    rw [hprimary]
    exact (bind_pure _).symm
  · rw [reader_chain hle, bare_chain]
    exact bind_congr fun q => (goOn_chain hle depth q.1 q.2).symm

namespace Renders

variable {p : Nat} {e : Expr} {ts : List Token}

/-- A writing at a place for operands is no assignment, whatever follows. -/
theorem ne_assign (h : Renders p e ts) (hp : 2 ≤ p) {rest : List Token} (hrest : ∀ op us, rest ≠ .assign op :: us)
    (x : String) (op : Option BinaryOp) (us : List Token) : ts ++ rest ≠ .name x :: .assign op :: us := by
  induction h generalizing rest us with
  | const n => simp
  | name y => simpa using fun _ => hrest op us
  | parens _ _ => simp [Arithmetic.parens]
  | unary sign _ _ => cases sign <;> simp [UnaryOp.token]
  | binary op _ _ ih _ =>
    rw [List.append_assoc]
    exact ih hp (by simp) us
  | assign _ _ _ _ => omega
  | comma _ _ _ _ => omega
  | looser _ ih => exact ih (by omega) hrest us

/-- What stands alone does not start with a sign. -/
theorem ne_token (h : Renders 9 e ts) (op : UnaryOp) (us : List Token) : ts ≠ op.token :: us := by
  generalize hp : 9 = p at h
  cases h with
  | const n => cases op <;> simp [UnaryOp.token]
  | name y => cases op <;> simp [UnaryOp.token]
  | parens _ => cases op <;> simp [UnaryOp.token, Arithmetic.parens]
  | unary _ _ => omega
  | binary op _ _ => have := op.level_le; omega
  | assign _ _ _ => omega
  | comma _ _ => omega
  | looser h => have := h.le_nine; omega

theorem ne_nil (h : Renders p e ts) : ts ≠ [] := by
  induction h with
  | looser _ ih => exact ih
  | _ => simp [Arithmetic.parens]

theorem plain (h : Renders (p + 1) e ts) {rest : List Token} (hrest : Tight p rest) : Plain p (ts ++ rest) := by
  unfold Plain
  split
  · refine h.ne_assign (by omega) ?_
    rintro op us rfl
    exact hrest
  · intro op us
    obtain ⟨t, ts, rfl⟩ := List.exists_cons_of_ne_nil h.ne_nil
    intro heq
    exact h.ne_token op ts (by rw [(List.cons.inj heq).1])
  · trivial

/-- **Any writing, read at its place, computes the expression; then the reader goes on.** -/
theorem read (h : Renders p e ts) {depth : Nat} (hdepth : ts.length ≤ depth) {rest : List Token}
    (hrest : Tight p rest) : bare (reader depth p (ts ++ rest)) = (do
      let v ← e.run
      goOn depth p v rest) := by
  -- The induction follows the writing; what follows it changes from operand to operand.
  induction h generalizing depth rest with
  | const n => rfl
  | name x => exact bare_primary_name (expressions depth) x.text rest
  | @parens e ts h ih =>
    rw [length_parens] at hdepth
    obtain ⟨depth, rfl⟩ : ∃ n, depth = n + 1 := ⟨depth - 1, by omega⟩
    have hinner : bare (expressions (depth + 1) (ts ++ .closeParen :: rest)) = (do
        let v ← e.run
        pure (v, .closeParen :: rest)) := by
      refine (ih (by omega) (by trivial)).trans (bind_congr fun v => ?_)
      rw [goOn, listFrom, bare_pure]
      simp
    rw [parens_append]
    refine (bare_primary_openParen _ _).trans ?_
    rw [hinner, bind_assoc]
    rfl
  | @unary op a ts h ih =>
    have hoperand := ih (Nat.le_of_succ_le hdepth) hrest
    refine (bare_unary_token _ op _).trans ?_
    rw [Expr.run, bind_assoc]
    refine (congrArg (· >>= _) hoperand).trans ?_
    rw [bind_assoc]
    rfl
  | @binary op a b ts us ha hb iha ihb =>
    have hop := op.level_le
    rw [List.length_append, List.length_cons] at hdepth
    rw [List.append_assoc, iha (by omega) (Nat.le_refl _), Expr.run, bind_assoc]
    refine bind_congr fun v => ?_
    rw [goOn_chain hop, List.cons_append, bare_chainFrom_binary, ihb (by omega) (hrest.mono (by omega)), bind_assoc,
      bind_assoc]
    refine bind_congr fun w => ?_
    rw [hrest.goOn (Nat.lt_succ_self _) (by omega), pure_bind]
    exact bind_congr fun u => (goOn_chain hop depth u rest).symm
  | @assign x op a ts h ih =>
    have hright := ih (Nat.le_of_succ_le (Nat.le_of_succ_le hdepth)) hrest
    refine (bare_assignment_name _ x.text op _).trans ?_
    rw [Expr.run, bind_assoc]
    refine (congrArg (· >>= _) hright).trans ?_
    rw [bind_assoc]
    rfl
  | @comma a b ts us ha hb iha ihb =>
    rw [List.length_append, List.length_cons] at hdepth
    rw [List.append_assoc, iha (by omega) (by trivial), Expr.run, bind_assoc]
    refine bind_congr fun v => ?_
    have hnext : bare (reader depth 1 (us ++ rest)) = _ := ihb (by omega) (hrest.mono (by decide))
    rw [goOn, List.cons_append, bare_listFrom_comma]
    refine (congrArg (· >>= _) hnext).trans ?_
    rw [bind_assoc]
    rfl
  | @looser p e ts h ih =>
    have hnine := h.le_nine
    rw [bare_reader (by omega) (h.plain hrest), ih hdepth (hrest.mono (Nat.le_succ p)), bind_assoc]
    refine bind_congr fun v => ?_
    rw [hrest.goOn (Nat.lt_succ_self p) hnine, pure_bind]

/-- A writing as a whole computes the expression. -/
theorem evaluateTokens (h : Renders 0 e ts) : evaluateTokens ts = e.run := by
  have hempty : ts.isEmpty = false := by simpa using h.ne_nil
  have hread : expressions (ts.length + 1) ts = (do
      let v ← e.run
      pure (v, ⟨[], List.length_pos_iff.mpr h.ne_nil⟩)) := by
    refine eq_of_bare ?_
    have hwhole : bare (reader ts.length 0 (ts ++ [])) = _ := h.read (Nat.le_refl _) trivial
    rw [List.append_nil] at hwhole
    refine hwhole.trans ?_
    rw [bare_bind]
    refine bind_congr fun v => ?_
    rw [goOn, listFrom, bare_pure, bare_pure]
    simp
  rw [Arithmetic.evaluateTokens, hempty, hread]
  simp

end Renders

end BatchShell.Arithmetic
