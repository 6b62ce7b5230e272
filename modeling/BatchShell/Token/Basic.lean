/-!
# Tokens of a command line

A line is made of words, operators and redirections. A token keeps the place it was read from and the
white space before it, because built-in commands print their arguments as they were written.

* `Lexeme` is what a token says, `Lexeme.text` how it is written.
* `Token` adds where it stood.
-/
namespace BatchShell

/-- What joins commands or encloses a block. -/
inductive Operator where
  /-- One ampersand: both commands run. -/
  | both
  /-- Two ampersands: the second command runs after success. -/
  | andThen
  /-- One bar: the first command's output is the second's input. -/
  | pipe
  /-- Two bars: the second command runs after failure. -/
  | orElse
  | openParen
  | closeParen
  /-- A line break inside a block. -/
  | lineBreak
  deriving DecidableEq

inductive RedirectOp where
  | input
  | output
  | append
  deriving DecidableEq

/-- A redirection sign: the stream digit before it, its direction, and the stream digit after an
ampersand. -/
structure RedirectSign where
  handle : Option (Fin 10)
  op : RedirectOp
  copyOf : Option (Fin 10)
  deriving DecidableEq

/-- What a token says. A word knows whether it is exactly one quoted region. -/
inductive Lexeme where
  | word (text : String) (quoted : Bool)
  | operator (op : Operator)
  | redirect (sign : RedirectSign)
  deriving DecidableEq

/-- A lexeme, the characters `start` to `stop` of the line that spell it, and the white space that
precedes it. -/
structure Token where
  lexeme : Lexeme
  start : Nat
  stop : Nat
  leading : String
  deriving DecidableEq

def Operator.text : Operator → String
  | .both => "&"
  | .andThen => "&&"
  | .pipe => "|"
  | .orElse => "||"
  | .openParen => "("
  | .closeParen => ")"
  | .lineBreak => "\n"

def RedirectOp.text : RedirectOp → String
  | .input => "<"
  | .output => ">"
  | .append => ">>"

def digitText (d : Fin 10) : String := toString d.val

def RedirectSign.text (r : RedirectSign) : String :=
  (r.handle.map digitText).getD "" ++ r.op.text ++ (r.copyOf.map fun d => "&" ++ digitText d).getD ""

/-- The text of a lexeme; a word keeps its quotes and has lost its carets. -/
def Lexeme.text : Lexeme → String
  | .word text _ => text
  | .operator op => op.text
  | .redirect sign => sign.text

namespace Token

def text (t : Token) : String := t.lexeme.text

def isWord (t : Token) : Bool :=
  match t.lexeme with
  | .word .. => true
  | _ => false

def isOperator (t : Token) : Bool :=
  match t.lexeme with
  | .operator _ => true
  | _ => false

def isOp (t : Token) (op : Operator) : Bool := t.lexeme == .operator op

end Token

end BatchShell
