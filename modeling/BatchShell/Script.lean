import BatchShell.Text.Blank
import BatchShell.Text.Case
import BatchShell.Text.Split
import BatchShell.Token.Lexer

/-!
# Batch scripts

A script is a list of logical lines. A logical line spans several physical lines when a block is still
open, when a line ends in an unescaped caret, or when the line that closes the block of an `IF` is
followed by an `ELSE` line. Labels, comments and blank lines are lines of their own, and are dropped
inside an open block. Lines are parsed only when they run, because expansion needs the variables of the
moment.

* `Script.load` divides a source text into logical lines.
* `Script.findLabel?` finds the first line with a label.
-/
namespace BatchShell

open Text

/-- What a logical line is. -/
inductive LineKind where
  | command
  /-- A label, with its normalised name. -/
  | label (name : String)
  | comment
  | blank
  deriving DecidableEq

/-- A logical line and the number of its first physical line, counted from one. -/
structure ScriptLine where
  text : String
  number : Nat
  kind : LineKind
  deriving DecidableEq

structure Script where
  name : String
  lines : List ScriptLine
  deriving DecidableEq

def endsLabel (c : Char) : Bool :=
  isBlank c || c == '+' || c == ':' || c == ',' || c == ';' || c == '='

/-- The name of a label in upper case, without its colon and what follows the name. -/
def normalizeLabel (label : String) : String :=
  let cs := (trimStart label).toList
  let cs := if cs.head? == some ':' then cs.drop 1 else cs
  upper (String.ofList (cs.takeWhile fun c => !endsLabel c))

/-- What a physical line is when it starts a logical line. -/
def LineKind.ofText (text : String) : LineKind :=
  let start := trimStart text
  match start.toList with
  | [] => .blank
  | ':' :: ':' :: _ => .comment
  | ':' :: _ => .label (normalizeLabel start)
  | _ => .command

/-- The first word of a line in upper case, without at-signs and up to a parenthesis. -/
def firstWord (text : String) : String :=
  let cs := (trimStart text).toList.dropWhile (· == '@')
  upper (String.ofList (cs.takeWhile fun c => !(isBlank c || c == '(')))

/-- Does the text end right after a caret that escapes the character to come? `quoted` tells whether a
quoted region is open, `escaped` whether such a caret was just read. -/
def endsInCaret : Bool → Bool → List Char → Bool
  | _, escaped, [] => escaped
  | quoted, true, _ :: cs => endsInCaret quoted false cs
  | quoted, false, c :: cs =>
    if c == '"' then endsInCaret (!quoted) false cs
    else if c == '^' && !quoted then endsInCaret quoted true cs
    else endsInCaret quoted false cs

/-- Does the line go on in the next one because it ends in a caret? -/
def continues (text : String) : Bool := endsInCaret false false text.toList

/-- The parentheses of a text while it is scanned: open blocks, open literal parentheses, whether a
remark is being passed over, and the token before. -/
structure BlockScan where
  depth : Nat
  literal : Nat
  inRemark : Bool
  previous : Option Token

/-- Does an opening parenthesis after `previous` open a block? It does at the start of a command: after an
operator, at the start of the text, after `DO` or `ELSE`, and after white space on an `IF` line. -/
def opensBlock (onIfLine : Bool) (previous : Option Token) (t : Token) : Bool :=
  match previous with
  | none => true
  | some p =>
    p.isOperator || sameIgnoringCase p.text "DO" || sameIgnoringCase p.text "ELSE" ||
      (onIfLine && !t.leading.isEmpty)

def BlockScan.step (onIfLine : Bool) (s : BlockScan) (t : Token) : BlockScan :=
  let seen : BlockScan := { s with previous := some t }
  if s.inRemark then { seen with inRemark := !t.isOp .lineBreak }
  else if t.isOp .openParen then
    if opensBlock onIfLine s.previous t then { seen with depth := s.depth + 1 }
    else { seen with literal := s.literal + 1 }
  else if t.isOp .closeParen then
    if 0 < s.literal then { seen with literal := s.literal - 1 }
    else { seen with depth := s.depth - 1 }
  else if t.isWord && upper (dropStart (· == '@') t.text) == "REM" &&
      s.previous.all (·.isOperator) then
    { seen with inRemark := true }
  else seen

def openBlocks (text : String) : Nat :=
  ((Token.scan text).foldl (BlockScan.step (firstWord text == "IF")) ⟨0, 0, false, none⟩).depth

def startsWithElse (line : String) : Bool :=
  match ((trimStart line).toList.take 5).map Char.toUpper with
  | ['E', 'L', 'S', 'E'] => true
  | ['E', 'L', 'S', 'E', c] => isBlank c || c == '('
  | _ => false

/-- Extend the command `text` by the physical lines that belong to it; the second component is the lines
that do not. -/
def extendLine (isRemark : Bool) : String → List String → String × List String
  | text, [] => (text, [])
  | text, next :: rest =>
    if continues text then
      extendLine isRemark (String.ofList text.toList.dropLast ++ next) rest
    else if !isRemark && 0 < openBlocks text then
      match LineKind.ofText next with
      | .command => extendLine isRemark (text ++ "\n" ++ next) rest
      | _ => extendLine isRemark text rest
    else if firstWord text == "IF" && (trimEnd text).toList.getLast? == some ')' &&
        startsWithElse next then
      extendLine isRemark (text ++ " " ++ trimStart next) rest
    else (text, next :: rest)

theorem length_extendLine_le (isRemark : Bool) (text : String) (rest : List String) :
    (extendLine isRemark text rest).2.length ≤ rest.length := by
  induction rest generalizing text with
  | nil => simp [extendLine]
  | cons next rest ih =>
    simp only [extendLine, List.length_cons]
    split
    · exact Nat.le_succ_of_le (ih _)
    · split
      · split <;> exact Nat.le_succ_of_le (ih _)
      · split
        · exact Nat.le_succ_of_le (ih _)
        · simp

/-- The logical lines of physical lines of which the first has number `number`. -/
def assemble (number : Nat) : List String → List ScriptLine
  | [] => []
  | first :: rest =>
    match LineKind.ofText first with
    | .command =>
      let extended := extendLine (firstWord first == "REM") first rest
      ⟨extended.1, number, .command⟩ ::
        assemble (number + 1 + (rest.length - extended.2.length)) extended.2
    | kind => ⟨first, number, kind⟩ :: assemble (number + 1) rest
  termination_by lines => lines.length
  decreasing_by
    · exact Nat.lt_succ_of_le (length_extendLine_le _ _ _)
    · simp

/-- The physical lines of a source text. A line feed ends a line, and one carriage return before it
belongs to the line end. -/
def physicalLines (source : String) : List String :=
  let parts := pieces (· == '\n') source
  let whole := if source.toList.getLast? == some '\n' then parts.dropLast else parts
  whole.map fun l => (dropSuffix? "\r" l).getD l

namespace Script

def load (name source : String) : Script := ⟨name, assemble 1 (physicalLines source)⟩

/-- The index of the first line that carries the label. -/
def findLabel? (s : Script) (label : String) : Option Nat :=
  s.lines.findIdx? fun l => l.kind == .label (normalizeLabel label)

/-- The names in `lines` that were already in `seen` or occurred earlier. -/
def repeatedLabels (seen : List String) : List ScriptLine → List String
  | [] => []
  | l :: ls =>
    match l.kind with
    | .label name =>
      if seen.contains name then name :: repeatedLabels seen ls
      else repeatedLabels (name :: seen) ls
    | _ => repeatedLabels seen ls

/-- The labels that are defined again, in the order of their repeated definitions. -/
def duplicateLabels (s : Script) : List String := repeatedLabels [] s.lines

end Script

end BatchShell
