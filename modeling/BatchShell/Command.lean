import BatchShell.Token.Basic

/-!
# Commands

The tree of one logical line. Leaves are simple commands; blocks, conditions and loops hold bodies; and
the operators `|`, `&&`, `||` and `&` join two commands. Words are kept as they stood after percent
expansion; loop letters in them are filled in when a command runs.
-/
namespace BatchShell

/-- Where a redirection leads: a file, or wherever another stream goes. -/
inductive RedirectTarget where
  | file (name : String)
  | handle (number : Nat)
  deriving DecidableEq

/-- One redirection of stream `handle` (0 input, 1 output, 2 errors). -/
structure Redirection where
  handle : Nat
  op : RedirectOp
  target : RedirectTarget
  deriving DecidableEq

/-- A name with its arguments. `rawArgs` is the text after the name as it was written, for the built-in
commands that read text instead of words. A command of redirections only has an empty name. -/
structure SimpleCommand where
  name : String
  args : List String
  rawArgs : String
  redirections : List Redirection
  deriving DecidableEq

def SimpleCommand.empty : SimpleCommand := ⟨"", [], "", []⟩

/-- How two operands of a condition are compared. `equal` is the sign `==`; it compares texts only. -/
inductive CompareOp where
  | equal
  | equ
  | neq
  | lss
  | leq
  | gtr
  | geq
  deriving DecidableEq

inductive Test where
  | exist (path : String)
  | defined (name : String)
  | errorLevel (level : String)
  | compare (left : String) (op : CompareOp) (right : String)
  deriving DecidableEq

structure Condition where
  negated : Bool
  ignoreCase : Bool
  test : Test
  deriving DecidableEq

/-- Where the values of a loop come from. -/
inductive LoopKind where
  /-- Words and file patterns. -/
  | items
  /-- Words and directory patterns. -/
  | directories
  /-- The set applied in a directory and all directories below it. -/
  | recursive (root : Option String)
  /-- Start, step and end of a range of numbers. -/
  | range
  /-- Lines of files, of a text or of a command's output. -/
  | lines (options : String)
  deriving DecidableEq

/-- The letter a loop binds, where its values come from, the text between the parentheses of its set,
and the words of that text. -/
structure LoopHead where
  letter : Char
  kind : LoopKind
  items : List String
  rawSet : String
  deriving DecidableEq

inductive Command where
  | simple (command : SimpleCommand)
  | block (body : Command) (redirections : List Redirection)
  | ifThen (condition : Condition) (body : Command)
  | ifElse (condition : Condition) (body other : Command)
  | loop (head : LoopHead) (body : Command)
  /-- `left | right` -/
  | pipe (left right : Command)
  /-- `left & right`, or two lines of a block. -/
  | both (left right : Command)
  /-- `left && right` -/
  | andThen (left right : Command)
  /-- `left || right` -/
  | orElse (left right : Command)
  deriving DecidableEq

/-- The stages of a pipeline, leftmost first; any other command is its own only stage. -/
def Command.stages : Command → List Command
  | .pipe left right => left.stages ++ right.stages
  | other => [other]

def CompareOp.ofKeyword? (word : String) : Option CompareOp :=
  match word.map Char.toUpper with
  | "EQU" => some .equ
  | "NEQ" => some .neq
  | "LSS" => some .lss
  | "LEQ" => some .leq
  | "GTR" => some .gtr
  | "GEQ" => some .geq
  | _ => none

def CompareOp.text : CompareOp → String
  | .equal => "=="
  | .equ => "EQU"
  | .neq => "NEQ"
  | .lss => "LSS"
  | .leq => "LEQ"
  | .gtr => "GTR"
  | .geq => "GEQ"

end BatchShell
