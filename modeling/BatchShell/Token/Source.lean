import BatchShell.Token.Basic

/-!
# Writing tokens back

A token list is written with one blank between tokens. Characters of a word that would end it or act as
operators outside quotes get a caret.
-/
namespace BatchShell

/-- A character that needs a caret outside quotes. -/
def needsCaret (c : Char) : Bool :=
  c == '^' || c == '&' || c == '|' || c == '<' || c == '>' || c == '(' || c == ')' || c == ' ' ||
  c == '\t'

/-- Put carets before the special characters that stand outside quotes; `quoted` tells whether a quoted
region is open. -/
def escapeWord : Bool → List Char → List Char
  | _, [] => []
  | quoted, c :: cs =>
    if c == '"' then c :: escapeWord (!quoted) cs
    else if !quoted && needsCaret c then '^' :: c :: escapeWord quoted cs
    else c :: escapeWord quoted cs

def Lexeme.source : Lexeme → String
  | .word text _ => String.ofList (escapeWord false text.toList)
  | .operator op => op.text
  | .redirect sign => sign.text

def Token.sourceLine (ts : List Token) : String :=
  " ".intercalate (ts.map fun t => t.lexeme.source)

end BatchShell
