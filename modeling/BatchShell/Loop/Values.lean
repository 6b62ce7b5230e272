import BatchShell.Loop.LineOptions
import BatchShell.Loop.Range
import BatchShell.Numeral
import BatchShell.Parser.Compound
import BatchShell.State
import BatchShell.Text.Hex
import BatchShell.Wildcard

/-!
# The values of a loop

Each iteration binds one or more values to consecutive letters. Values come from a list, or from a range of
numbers that is counted out as the loop runs.

* `Values.next?` gives the values of the next iteration.
* `itemValues`, `treeValues` and `lineValues` produce the values of the kinds of loops.
-/
namespace BatchShell.Loop

open Text

inductive Values where
  | list (values : List (List String))
  | range (range : Range)
  deriving DecidableEq

namespace Values

def next? : Values → Option (List String × Values)
  | .list [] => none
  | .list (v :: vs) => some (v, .list vs)
  | .range r => r.next?.map fun (n, rest) => ([toString n], .range rest)

def ofItems (items : List String) : Values := .list (items.map fun item => [item])

end Values

def letterAfter? (letter : Char) (offset : Nat) : Option Char := charOfCode? (letter.toNat + offset)

/-- Bind values to consecutive letters. -/
def bind (letter : Char) (values : List String) : LoopFrame :=
  values.zipIdx.filterMap fun (value, n) => (letterAfter? letter n).map (·, value)

/-- The items of a set: a pattern stands for the entries that match it. -/
def itemValues (glob : Wildcard.Glob) (files : FileTree) (cwd : String) (kind : Wildcard.EntryKind)
    (items : List String) : List String :=
  items.flatMap fun item =>
    if Wildcard.hasWildcards item then Wildcard.expand glob files cwd item kind else [item]

/-- A directory and those below it, each before those it holds. A tree is no deeper than `fuel`. -/
def directoriesFrom (files : FileTree) : Nat → String → List String
  | 0, path => [path]
  | fuel + 1, path =>
    match files.locate path with
    | none => [path]
    | some place =>
      path :: ((files.children place).filter fun name => files.isDirectoryAt (place ++ [name])).flatMap
        fun name => directoriesFrom files fuel (Path.join path name)

/-- A directory and all directories below it, depth first, in the order of their names. -/
def directoryTree (files : FileTree) (root : String) : List String :=
  if files.isDirectory root then directoriesFrom files files.depth root else []

/-- The set applied in a directory and all directories below it. -/
def treeValues (glob : Wildcard.Glob) (files : FileTree) (root : String) (items : List String) :
    List String :=
  (directoryTree files root).flatMap fun dir => items.flatMap fun item =>
    if Wildcard.hasWildcards item then
      (Wildcard.expand glob files dir item .files).map (Path.join dir)
    else [Path.join dir (dequote item)]

/-- An operand of a range; what is no number counts as 0. -/
def operand (items : List String) (n : Nat) : Except Crash Int :=
  match items[n]? with
  | none => .ok 0
  | some text => (Numeral.parse32 text).map fun value => (value.map Int32.toInt).getD 0

def rangeOf (items : List String) : Except Crash Range := do
  .ok (Range.ofBounds (← operand items 0) (← operand items 1) (← operand items 2))

inductive LineSource where
  | command (line : String)
  | text (text : String)
  | files (names : List String)
  deriving DecidableEq

def quoted? (quote : Char) (text : String) : Option String :=
  match text.toList with
  | c :: cs =>
    match cs.reverse with
    | d :: inner => if c == quote && d == quote then some (String.ofList inner.reverse) else none
    | [] => none
  | [] => none

/-- The quotes of a command and of a text: `'` and `"`, or with back quotes allowed the back quote and
`'`. -/
def quotes (useBackQuote : Bool) : Char × Char :=
  if useBackQuote then (Char.ofNat 96, Char.ofNat 39) else (Char.ofNat 39, '"')

def LineSource.ofSet (options : LineOptions) (set : String) : LineSource :=
  let (commandQuote, textQuote) := quotes options.useBackQuote
  match quoted? commandQuote set, quoted? textQuote set with
  | some line, _ => .command line
  | none, some body => .text body
  | none, none => .files (Parser.setItems set)

def lineValues (options : LineOptions) (text : String) : List (List String) :=
  ((lines text).drop options.skip).filterMap options.split

/-- The texts of files, or the name of the first that cannot be read. -/
def readAll (files : FileTree) (cwd : String) : List String → Except String (List String)
  | [] => .ok []
  | name :: names =>
    match files.readText? (Path.resolve cwd name) with
    | none => .error name
    | some text => (readAll files cwd names).map (text :: ·)

def missingFile (name : String) : String := "The system cannot find the file " ++ dequote name ++ ".\n"

end BatchShell.Loop
