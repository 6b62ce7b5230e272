import BatchShell.Parser.Simple

/-!
# Sequences and blocks

A pipeline binds tighter than `&&` and `||`, which associate to the left and bind tighter than `&` and
line breaks. The readers here take the reader of single commands as a parameter; each of its uses
shortens the line.

* `sequence` reads commands up to the end of the line or of the enclosing block.
* `block` reads what stands in parentheses.
-/
namespace BatchShell.Parser

/-- A reader of one command, told whether it stands inside a block. -/
abbrev CommandReader := Bool → (ts : List Token) → Reading (Command × Shorter ts)

/-- After the operator `op`, which ended at `place`, a command has to follow. -/
def expectOperand (op : Operator) (place : Nat) : List Token → Reading Unit
  | [] => .error ⟨.unexpected op.text, place⟩
  | t :: _ =>
    if t.isOperator && !t.isOp .openParen then .error ⟨.unexpected t.text, t.start⟩ else .ok ()

def pipelineFrom (command : CommandReader) (inBlock : Bool) (left : Command) :
    (ts : List Token) → Reading (Command × NotLonger ts)
  | [] => .ok (left, ⟨[], Nat.le_refl _⟩)
  | t :: ts =>
    if t.isOp .pipe then do
      expectOperand .pipe t.stop ts
      let (right, rest) ← command inBlock ts
      let (whole, after) ← pipelineFrom command inBlock (.pipe left right) rest.val
      .ok (whole, ⟨after.val, by have := after.property; have := rest.property; simp; omega⟩)
    else .ok (left, ⟨t :: ts, Nat.le_refl _⟩)
  termination_by ts => ts.length
  decreasing_by have := rest.property; simp; omega

def pipeline (command : CommandReader) (inBlock : Bool) (ts : List Token) :
    Reading (Command × Shorter ts) := do
  let (left, rest) ← command inBlock ts
  let (whole, after) ← pipelineFrom command inBlock left rest.val
  .ok (whole, rest.extend after)

def chainFrom (command : CommandReader) (inBlock : Bool) (left : Command) :
    (ts : List Token) → Reading (Command × NotLonger ts)
  | [] => .ok (left, ⟨[], Nat.le_refl _⟩)
  | t :: ts =>
    if t.isOp .andThen || t.isOp .orElse then do
      expectOperand (if t.isOp .andThen then .andThen else .orElse) t.stop ts
      let (right, rest) ← pipeline command inBlock ts
      let joined := if t.isOp .andThen then Command.andThen left right else .orElse left right
      let (whole, after) ← chainFrom command inBlock joined rest.val
      .ok (whole, ⟨after.val, by have := after.property; have := rest.property; simp; omega⟩)
    else .ok (left, ⟨t :: ts, Nat.le_refl _⟩)
  termination_by ts => ts.length
  decreasing_by have := rest.property; simp; omega

/-- Read pipelines joined by `&&` and `||`. -/
def chain (command : CommandReader) (inBlock : Bool) (ts : List Token) :
    Reading (Command × Shorter ts) := do
  let (left, rest) ← pipeline command inBlock ts
  let (whole, after) ← chainFrom command inBlock left rest.val
  .ok (whole, rest.extend after)

def skipBreaks : (ts : List Token) → NotLonger ts
  | [] => ⟨[], Nat.le_refl _⟩
  | t :: ts =>
    if t.isOp .lineBreak then
      ⟨(skipBreaks ts).val, Nat.le_succ_of_le (skipBreaks ts).property⟩
    else ⟨t :: ts, Nat.le_refl _⟩

def joinBoth (prev : Option Command) (item : Command) : Command :=
  match prev with
  | none => item
  | some before => .both before item

/-- Read the rest of a sequence after `prev`. A single line (`oneLine`) ends at a line break; otherwise
line breaks join commands as `&` does. -/
def sequenceFrom (command : CommandReader) (inBlock oneLine : Bool) (prev : Option Command)
    (ts : List Token) : Reading (Option Command × NotLonger ts) :=
  let begun : NotLonger ts := if oneLine then ⟨ts, Nat.le_refl _⟩ else skipBreaks ts
  match h : begun.val with
  | [] => .ok (prev, begun)
  | t :: _ =>
    if t.isOp .closeParen || (oneLine && t.isOp .lineBreak) then .ok (prev, begun)
    else if t.isOperator && !t.isOp .openParen then .error ⟨.unexpected t.text, t.start⟩
    else do
      let (item, rest) ← chain command inBlock begun.val
      have shorter : rest.val.length < ts.length :=
        Nat.lt_of_lt_of_le rest.property begun.property
      let joined := some (joinBoth prev item)
      match h' : rest.val with
      | [] => .ok (joined, ⟨[], Nat.zero_le _⟩)
      | u :: us =>
        have fewer : us.length < ts.length := by rw [h'] at shorter; simp at shorter; omega
        if u.isOp .both then
          let (whole, after) ← sequenceFrom command inBlock oneLine joined us
          .ok (whole, ⟨after.val, Nat.le_trans after.property (Nat.le_of_lt fewer)⟩)
        else if u.isOp .lineBreak && !oneLine then
          let (whole, after) ← sequenceFrom command inBlock oneLine joined us
          .ok (whole, ⟨after.val, Nat.le_trans after.property (Nat.le_of_lt fewer)⟩)
        else .ok (joined, ⟨rest.val, Nat.le_of_lt shorter⟩)
  termination_by ts.length

/-- Read a sequence of commands, perhaps none. -/
def sequence (command : CommandReader) (inBlock oneLine : Bool) (ts : List Token) :
    Reading (Option Command × NotLonger ts) :=
  sequenceFrom command inBlock oneLine none ts

/-- Read redirections until something else follows. -/
def redirectionsFrom : (ts : List Token) → Reading (List Redirection × NotLonger ts)
  | [] => .ok ([], ⟨[], Nat.le_refl _⟩)
  | t :: ts =>
    match t.lexeme with
    | .redirect sign => do
      let (first, rest) ← redirectTarget t sign ts
      let (more, after) ← redirectionsFrom rest.val
      .ok (first :: more, ⟨after.val, Nat.le_trans after.property (Nat.le_succ_of_le rest.property)⟩)
    | _ => .ok ([], ⟨t :: ts, Nat.le_refl _⟩)
  termination_by ts => ts.length
  decreasing_by exact Nat.lt_succ_of_le rest.property

/-- Read a block; its opening parenthesis, at place `opened`, has been taken. An empty block does
nothing. -/
def block (command : CommandReader) (opened : Nat) (ts : List Token) :
    Reading (Command × NotLonger ts) := do
  let (body, rest) ← sequence command true false ts
  match h : rest.val with
  | [] => .error ⟨.unclosedParen, opened⟩
  | t :: us =>
    if t.isOp .closeParen then
      let (redirections, after) ← redirectionsFrom us
      .ok (.block (body.getD (.simple .empty)) redirections,
        ⟨after.val, by
          have h1 := after.property
          have h2 := rest.property
          rw [h] at h2
          simp at h2
          omega⟩)
    else .error ⟨.unclosedParen, opened⟩

end BatchShell.Parser
