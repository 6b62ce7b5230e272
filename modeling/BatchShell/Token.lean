import BatchShell.Token.Basic
import BatchShell.Token.Lexer
import BatchShell.Token.Source

/-!
# Tokens

The words, operators and redirections of a command line: their types, how a line is divided into them,
and how they are written back.
-/
