/-!
# Errors of form

Why a line is not a command, and where the reading stopped.
-/
namespace BatchShell

/-- What a reader was looking for when the line went on differently. -/
inductive Expected where
  | ifWord
  | forWord
  | existPath
  | definedName
  | errorLevelNumber
  | condition
  | comparison
  | rightOperand
  | loopVariable
  | inWord
  | doWord
  deriving DecidableEq

def Expected.text : Expected → String
  | .ifWord => "IF"
  | .forWord => "FOR"
  | .existPath => "path after EXIST"
  | .definedName => "name after DEFINED"
  | .errorLevelNumber => "number after ERRORLEVEL"
  | .condition => "condition"
  | .comparison => "comparison operator"
  | .rightOperand => "right operand"
  | .loopVariable => "loop variable"
  | .inWord => "IN"
  | .doWord => "DO"

inductive FormFault where
  /-- A token stands where it cannot. -/
  | unexpected (text : String)
  | expected (what : Expected)
  | unclosedParen
  | missingCommand
  | tooDeep
  | tooLong
  deriving DecidableEq

/-- A fault and the place in the line where it was noticed. -/
structure FormError where
  fault : FormFault
  offset : Nat
  deriving DecidableEq

def unexpectedText (text : String) : String := text ++ " was unexpected at this time."

def FormFault.message : FormFault → String
  | .unexpected text => unexpectedText text
  | .expected what => "expected " ++ what.text
  | .unclosedParen => "missing closing parenthesis"
  | .missingCommand => "missing command"
  | .tooDeep => "nesting too deep"
  | .tooLong => "line too long"

def FormError.display (e : FormError) : String :=
  "syntax error at offset " ++ toString e.offset ++ ": " ++ e.fault.message

end BatchShell
