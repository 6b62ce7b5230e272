import BatchShell.Builtin.Filter
import BatchShell.Matching

/-!
# FINDSTR

Searches lines for any of several patterns. A pattern is a regular expression, or stands for itself after
`/L` and in `/C:text`; what is no valid expression stands for itself too.
-/
namespace BatchShell.Builtin

open Text

/-- The text of an argument `/C:text`, without the quotes around it. It lies on one line. -/
def literalArgument? (arg : String) : Option String :=
  match arg.toList with
  | '/' :: c :: ':' :: rest =>
    if c.toUpper == 'C' && !rest.contains '\n' then
      let inner := match rest with
        | '"' :: cs => cs
        | cs => cs
      some (String.ofList (match inner.reverse with
        | '"' :: cs => cs.reverse
        | _ => inner))
    else none
  | _ => none

/-- What the arguments of `FINDSTR` ask for. -/
structure FindstrOptions where
  ignoreCase : Bool
  invert : Bool
  numbered : Bool
  /-- Patterns stand for themselves. -/
  literal : Bool
  /-- The texts of `/C:`. -/
  texts : List String
  operands : List String
  deriving DecidableEq

namespace FindstrOptions

def add (o : FindstrOptions) (arg : String) : FindstrOptions :=
  match literalArgument? arg with
  | some text => { o with texts := o.texts ++ [text] }
  | none =>
    match upper arg with
    | "/I" => { o with ignoreCase := true }
    | "/V" => { o with invert := true }
    | "/N" => { o with numbered := true }
    | "/L" => { o with literal := true }
    | "/R" => { o with literal := false }
    | _ => { o with operands := o.operands ++ [arg] }

def ofArgs (args : List String) : FindstrOptions :=
  args.foldl add ⟨false, false, false, false, [], []⟩

def accepts (o : FindstrOptions) (matching : Matching) (pattern : String) : String → Bool :=
  let plain := matching.holdsText o.ignoreCase pattern
  if o.literal then plain else (matching.holdsExpression? o.ignoreCase pattern).getD plain

/-- The tests for what is looked for, and the files to search. Without `/C:` the first operand holds the
patterns. -/
def search? (o : FindstrOptions) (matching : Matching) : Option (List (String → Bool) × List String) :=
  match o.texts, o.operands with
  | [], [] => none
  | [], patterns :: names => some ((splitBlanks (dequote patterns)).map (o.accepts matching), names)
  | texts, names => some (texts.map (matching.holdsText o.ignoreCase), names)

end FindstrOptions

/-- `FINDSTR`. The status tells whether any line was found. -/
def runFindstr (matching : Matching) (files : FileTree) (s : State) (args : List String) (stdin : String) :
    Result :=
  let o := FindstrOptions.ofArgs args
  match o.search? matching with
  | none => .failureWith "FINDSTR: Bad command line\n" 2
  | some (tests, names) =>
    let (texts, complaints) := sources files s names stdin dequote
      fun n => "FINDSTR: Cannot open " ++ dequote n ++ "\n"
    let accept (line : String) : Bool := tests.any (fun test => test line) != o.invert
    let found := texts.map fun (label, text) => (label, numberedLines accept text)
    let heading (label : Option String) : String :=
      match label with
      | some name => if 1 < names.length then name ++ ":" else ""
      | none => ""
    let report := String.join (found.map fun (label, ls) => String.join (ls.map fun (n, line) =>
      heading label ++ (if o.numbered then toString n ++ ":" else "") ++ line ++ "\n"))
    ⟨report, complaints, if found.any fun (_, ls) => !ls.isEmpty then 0 else 1⟩

end BatchShell.Builtin
