import BatchShell.Complaint
import BatchShell.Outcome
import BatchShell.Text.Folding

/-!
# TYPE, MORE, SORT and FIND

Commands that read files, or their input where no file is named, and write lines.
-/
namespace BatchShell.Builtin

open Text

def readNamed? (files : FileTree) (s : State) (name : String) : Option String :=
  files.readText? (Path.resolve s.cwd name)

def joinLines (ls : List String) : String := String.join (ls.map (· ++ "\n"))

def isSwitch (arg : String) : Bool :=
  match arg.toList with
  | '/' :: _ :: _ => true
  | _ => false

def hasSwitch (args : List String) (switch : String) : Bool :=
  args.any fun arg => isSwitch arg && sameIgnoringCase arg switch

def operands (args : List String) : List String := args.filter fun arg => !isSwitch arg

/-- `TYPE` for one of its files. -/
def typeFile (files : FileTree) (s : State) (many : Bool) (name : String) : Result :=
  let heading := if many then "\n" ++ dequote name ++ "\n\n\n" else ""
  match readNamed? files s name with
  | some text => ⟨text, heading, 0⟩
  | none => ⟨"", heading ++ Complaint.fileNotFound ++
      "Error occurred while processing: " ++ dequote name ++ ".\n", 1⟩

/-- Results one after the other; the status tells whether any failed. -/
def gather (rs : List Result) : Result :=
  ⟨String.join (rs.map (·.stdout)), String.join (rs.map (·.stderr)),
    if rs.all (·.status == 0) then 0 else 1⟩

def runType (files : FileTree) (s : State) (args : List String) : Result :=
  if args.isEmpty then .failure Complaint.badForm
  else gather (args.map (typeFile files s (1 < args.length)))

/-- `MORE`. Its output is not paged. -/
def runMore (files : FileTree) (s : State) (args : List String) (stdin : String) : Result :=
  match operands args with
  | [] => .output (joinLines (lines stdin))
  | names => gather (names.map fun name =>
      match readNamed? files s name with
      | some text => .output (joinLines (lines text))
      | none => .failure ("Cannot access file " ++ dequote name ++ "\n"))

/-- Lines in the order of their lower-case texts. -/
def sortLines (ls : List String) : List String :=
  ((ls.map fun l => (lowerCase l, l)).mergeSort fun a b => decide (a.1 ≤ b.1)).map (·.2)

/-- `SORT`, with `/R` backwards. -/
def runSort (files : FileTree) (s : State) (args : List String) (stdin : String) : Result :=
  let input := match operands args with
    | [] => some stdin
    | name :: _ => readNamed? files s name
  match input with
  | none => .failure Complaint.fileNotFound
  | some text =>
    let sorted := sortLines (lines text)
    .output (joinLines (if hasSwitch args "/R" then sorted.reverse else sorted))

structure FindOptions where
  invert : Bool
  countOnly : Bool
  numbered : Bool
  ignoreCase : Bool
  deriving DecidableEq

def FindOptions.accepts (o : FindOptions) (needle line : String) : Bool :=
  (if o.ignoreCase then contains (lowerCase line) (lowerCase needle) else contains line needle) !=
    o.invert

/-- The accepted lines, with their numbers from 1 on. -/
def numberedLines (accept : String → Bool) (text : String) : List (Nat × String) :=
  ((lines text).zipIdx 1).filterMap fun (line, n) => if accept line then some (n, line) else none

/-- What `FIND` writes about one text, under a heading for a file. -/
def FindOptions.report (o : FindOptions) (label : Option String) (found : List (Nat × String)) : String :=
  if o.countOnly then
    match label with
    | some name => "---------- " ++ name ++ ": " ++ toString found.length ++ "\n"
    | none => toString found.length ++ "\n"
  else
    (label.map fun name => "\n---------- " ++ name ++ "\n").getD "" ++
      String.join (found.map fun (n, line) =>
        (if o.numbered then "[" ++ toString n ++ "]" else "") ++ line ++ "\n")

/-- The texts that a command searches: its files, each under a label, or its input. The complaints are
about the files that cannot be read. -/
def sources (files : FileTree) (s : State) (names : List String) (stdin : String)
    (label complaint : String → String) : List (Option String × String) × String :=
  if names.isEmpty then ([(none, stdin)], "")
  else
    (names.filterMap fun name => (readNamed? files s name).map fun text => (some (label name), text),
      String.join (names.map fun name =>
        if (readNamed? files s name).isSome then "" else complaint name))

/-- `FIND`. The status tells whether any line was found. -/
def runFind (files : FileTree) (s : State) (args : List String) (stdin : String) : Result :=
  let o : FindOptions :=
    ⟨hasSwitch args "/V", hasSwitch args "/C", hasSwitch args "/N", hasSwitch args "/I"⟩
  match operands args with
  | [] => .failureWith "FIND: Parameter format not correct\n" 2
  | needle :: names =>
    if needle.toList.head? != some '"' then .failureWith "FIND: Parameter format not correct\n" 2
    else
      let (texts, complaints) := sources files s names stdin (fun n => upperCase (dequote n))
        fun n => "File not found - " ++ dequote n ++ "\n"
      let found := texts.map fun (label, text) =>
        (label, numberedLines (o.accepts (dequote needle)) text)
      ⟨String.join (found.map fun (label, ls) => o.report label ls), complaints,
        if found.any fun (_, ls) => !ls.isEmpty then 0 else 1⟩

end BatchShell.Builtin
