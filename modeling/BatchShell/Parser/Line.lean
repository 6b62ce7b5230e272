import BatchShell.Parser.Compound
import BatchShell.Token.Lexer

/-!
# Parsing a line

A line is a sequence of commands that reaches to its end. Commands nest at most two hundred levels deep,
and a line has at most a million bytes.

* `Command.ofTokens?` reads the tokens of a line.
* `Command.parse` reads its text.
-/
namespace BatchShell

namespace Parser

def maxDepth : Nat := 200

def maxBytes : Nat := 1000000

/-- Read one command, given the reader for the commands inside it. -/
def commandWith (lineEnd : Nat) (inner : CommandReader) (inBlock : Bool) (ts : List Token) :
    Reading (Command × Shorter ts) :=
  match ts with
  | [] => .error ⟨.missingCommand, lineEnd⟩
  | t :: us =>
    if t.isOp .openParen then do
      let (body, rest) ← block inner t.start us
      .ok (body, rest.behind t)
    else
      let keyword := (peekWord? (t :: us)).map fun w =>
        String.ofList (w.toList.dropWhile (· == '@')) |>.map Char.toUpper
      match keyword with
      | some "IF" => conditional lineEnd inner inBlock (t :: us)
      | some "FOR" => loop lineEnd inner inBlock (t :: us)
      | some "REM" =>
        let (found, rest) := remark inBlock us
        .ok (.simple found, rest.behind t)
      | _ => do
        let (found, rest) ← simple t us
        .ok (.simple found, rest.behind t)

/-- Read one command that nests at most `depth` levels. -/
def commandReader (lineEnd : Nat) : Nat → CommandReader
  | 0 => fun _ ts => .error ⟨.tooDeep, offset lineEnd ts⟩
  | depth + 1 => commandWith lineEnd (commandReader lineEnd depth)

def lineEnd (ts : List Token) : Nat := (ts.getLast?.map (·.stop)).getD 0

end Parser

open BatchShell.Parser in
/-- The command that a list of tokens spells; `none` when there is no command on the line. -/
def Command.ofTokens? (ts : List Token) : Except FormError (Option Command) := do
  let (found, rest) ← sequence (commandReader (lineEnd ts) maxDepth) false false ts
  match rest.val with
  | [] => .ok found
  | t :: _ => .error ⟨.unexpected t.text, t.start⟩

/-- The command that a line spells, without any expansion. -/
def Command.parse (line : String) : Except FormError (Option Command) :=
  if Parser.maxBytes < line.utf8ByteSize then .error ⟨.tooLong, Parser.maxBytes⟩
  else Command.ofTokens? (Token.scan line)

end BatchShell
