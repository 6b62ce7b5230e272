import BatchShell.Command
import BatchShell.Parser.Word

/-!
# Simple commands

A simple command is a run of words and redirections. Parentheses inside it are text: an opening one that
follows the name, and the closing ones that match. Redirections are taken out of the arguments.

* `SimpleScan.step` takes one token into a command.
* `simple` and `remark` read a whole command.
-/
namespace BatchShell.Parser

/-- A simple command being read. `name` is fixed once a second word starts; `current` is the word being
glued together; `parens` counts literal parentheses that are open; `args` has the last argument first and
`redirections` the last redirection. -/
structure SimpleScan where
  name : Option String
  args : List String
  rawArgs : String
  redirections : List Redirection
  current : Option String
  parens : Nat

namespace SimpleScan

def start : SimpleScan := ⟨none, [], "", [], none, 0⟩

/-- Close the current word: the first one is the name, later ones are arguments. -/
def closeWord (s : SimpleScan) : SimpleScan :=
  match s.current with
  | none => s
  | some word =>
    match s.name with
    | none => { s with name := some word, current := none }
    | some _ => { s with args := word :: s.args, current := none }

/-- Take a literal piece of text with the white space before it. -/
def addText (s : SimpleScan) (leading text : String) : SimpleScan :=
  match s.current with
  | some word =>
    if leading.isEmpty then
      { s with
        current := some (word ++ text)
        rawArgs := if s.name.isSome then s.rawArgs ++ text else s.rawArgs }
    else { s.closeWord with current := some text, rawArgs := s.rawArgs ++ leading ++ text }
  | none =>
    { s with
      current := some text
      rawArgs := if s.name.isSome then s.rawArgs ++ leading ++ text else s.rawArgs }

/-- The command that was read. Leading at-signs are no part of its name. -/
def finish (s : SimpleScan) : SimpleCommand :=
  let closed := s.closeWord
  { name := String.ofList ((closed.name.getD "").toList.dropWhile (· == '@'))
    args := closed.args.reverse
    rawArgs := closed.rawArgs
    redirections := closed.redirections.reverse }

end SimpleScan

def redirectTarget (t : Token) (sign : RedirectSign) (ts : List Token) :
    Reading (Redirection × NotLonger ts) :=
  let handle := match sign.handle with
    | some d => d.val
    | none => if sign.op == .input then 0 else 1
  match sign.copyOf with
  | some d => .ok (⟨handle, sign.op, .handle d.val⟩, .all ts)
  | none =>
    match word? ts with
    | some (word, rest) =>
      .ok (⟨handle, sign.op, .file word.text⟩, rest.weaken)
    | none => .error ⟨.unexpected t.text, t.start⟩

/-- Take the token `t`, followed by `ts`, into a simple command; `none` when the command ends before
it. -/
def SimpleScan.step (s : SimpleScan) (t : Token) (ts : List Token) :
    Reading (Option (SimpleScan × NotLonger ts)) :=
  match t.lexeme with
  | .word text _ => .ok (some (s.addText t.leading text, .all ts))
  | .redirect sign => do
    let (redirection, rest) ← redirectTarget t sign ts
    let closed := s.closeWord
    .ok (some ({ closed with redirections := redirection :: closed.redirections }, rest))
  | .operator .openParen =>
    .ok (some ({ s.addText t.leading "(" with parens := s.parens + 1 }, .all ts))
  | .operator .closeParen =>
    if 0 < s.parens then
      .ok (some ({ s.addText t.leading ")" with parens := s.parens - 1 }, .all ts))
    else .ok none
  | .operator _ => .ok none

def simpleFrom (s : SimpleScan) : (ts : List Token) → Reading (SimpleCommand × NotLonger ts)
  | [] => .ok (s.finish, ⟨[], Nat.le_refl _⟩)
  | t :: ts => do
    match ← s.step t ts with
    | none => .ok (s.finish, ⟨t :: ts, Nat.le_refl _⟩)
    | some (s', rest) =>
      let (command, after) ← simpleFrom s' rest.val
      .ok (command,
        ⟨after.val, Nat.le_trans after.property (Nat.le_succ_of_le rest.property)⟩)
  termination_by ts => ts.length
  decreasing_by exact Nat.lt_succ_of_le rest.property

def simple (t : Token) (ts : List Token) : Reading (SimpleCommand × NotLonger ts) := do
  match ← SimpleScan.start.step t ts with
  | none => .error ⟨.unexpected t.text, t.start⟩
  | some (s, rest) =>
    let (command, after) ← simpleFrom s rest.val
    .ok (command, ⟨after.val, Nat.le_trans after.property rest.property⟩)

/-- The tokens a remark swallows: all up to a line break or, inside a block, a closing parenthesis. -/
def remarkText (inBlock : Bool) : (ts : List Token) → String × List String × NotLonger ts
  | [] => ("", [], ⟨[], Nat.le_refl _⟩)
  | t :: ts =>
    if t.isOp .lineBreak || (inBlock && t.isOp .closeParen) then
      ("", [], ⟨t :: ts, Nat.le_refl _⟩)
    else
      let (raw, args, rest) := remarkText inBlock ts
      (t.leading ++ t.text ++ raw, if t.isWord then t.text :: args else args,
        ⟨rest.val, Nat.le_succ_of_le rest.property⟩)

/-- Read a remark; its first token has been taken. -/
def remark (inBlock : Bool) (ts : List Token) : SimpleCommand × NotLonger ts :=
  let (raw, args, rest) := remarkText inBlock ts
  (⟨"REM", args, raw, []⟩, rest)

end BatchShell.Parser
