import BatchShell.Parser.Error
import BatchShell.Token.Basic

/-!
# Words in a token list

An argument is a run of word tokens with no white space between them. Readers return the rest of the
tokens together with the fact that it is shorter, which is why the readers built on them end.
-/
namespace BatchShell.Parser

/-- What remains of `ts` after something was read. -/
abbrev Shorter (ts : List Token) := { rest : List Token // rest.length < ts.length }

/-- What remains of `ts` after something, perhaps nothing, was read. -/
abbrev NotLonger (ts : List Token) := { rest : List Token // rest.length ≤ ts.length }

def NotLonger.all (ts : List Token) : NotLonger ts := ⟨ts, Nat.le_refl _⟩

/-- What remains after a token was read, and then perhaps more. -/
def NotLonger.behind {ts : List Token} (t : Token) (rest : NotLonger ts) : Shorter (t :: ts) :=
  ⟨rest.val, Nat.lt_succ_of_le rest.property⟩

def NotLonger.trans {ts : List Token} (rest : NotLonger ts) (after : Shorter rest.val) : Shorter ts :=
  ⟨after.val, Nat.lt_of_lt_of_le after.property rest.property⟩

namespace Shorter

variable {ts : List Token}

def weaken (rest : Shorter ts) : NotLonger ts := ⟨rest.val, Nat.le_of_lt rest.property⟩

def trans (rest : Shorter ts) (after : Shorter rest.val) : Shorter ts :=
  ⟨after.val, Nat.lt_trans after.property rest.property⟩

def extend (rest : Shorter ts) (after : NotLonger rest.val) : Shorter ts :=
  ⟨after.val, Nat.lt_of_le_of_lt after.property rest.property⟩

end Shorter

abbrev Reading (α : Type) := Except FormError α

structure Word where
  text : String
  offset : Nat

/-- The text of the word tokens glued to what was read before. -/
def glued : (ts : List Token) → String × NotLonger ts
  | [] => ("", ⟨[], Nat.le_refl _⟩)
  | t :: ts =>
    match t.lexeme with
    | .word text _ =>
      if t.leading.isEmpty then
        let (more, rest) := glued ts
        (text ++ more, ⟨rest.val, Nat.le_succ_of_le rest.property⟩)
      else ("", ⟨t :: ts, Nat.le_refl _⟩)
    | _ => ("", ⟨t :: ts, Nat.le_refl _⟩)

def word? : (ts : List Token) → Option (Word × Shorter ts)
  | [] => none
  | t :: ts =>
    match t.lexeme with
    | .word text _ =>
      let (more, rest) := glued ts
      some (⟨text ++ more, t.start⟩, ⟨rest.val, Nat.lt_succ_of_le rest.property⟩)
    | _ => none

def peekWord? (ts : List Token) : Option String := (word? ts).map (·.1.text)

/-- The next argument with its basic Latin letters raised. -/
def peekKeyword? (ts : List Token) : Option String := (peekWord? ts).map (·.map Char.toUpper)

/-- The place of the next token, or the end of the line. -/
def offset (lineEnd : Nat) : List Token → Nat
  | [] => lineEnd
  | t :: _ => t.start

def expectWord (lineEnd : Nat) (what : Expected) (ts : List Token) : Reading (Word × Shorter ts) :=
  match word? ts with
  | some found => .ok found
  | none => .error ⟨.expected what, offset lineEnd ts⟩

end BatchShell.Parser
