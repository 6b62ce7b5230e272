import BatchShell.Text.Blank
import BatchShell.Text.Case
import BatchShell.Text.Split

/-!
# Paths

Paths are texts whose parts are separated by slashes. The functions here are lexical: they look at the
text only, never at the files.

* `Path.normalize` drops `.` parts and folds `..` into the part before it.
* `Path.resolve` reads a path as it is typed, relative to a directory.
* `Path.fileName?`, `parentText`, `extension?` take a path apart.
-/
namespace BatchShell

/-- The text without double quotes, which only group words on a command line. -/
def dequote (text : String) : String := String.ofList (text.toList.filter (· != '"'))

/-- Does a file name mean the device that discards output? -/
def isNullDevice (name : String) : Bool :=
  let plain := Text.dropEnd (· == ':') (dequote name)
  Text.sameIgnoringCase plain "NUL" || plain == "/dev/null"

namespace Path

def isAbsolute (p : String) : Bool := p.toList.head? == some '/'

/-- The parts of a path that name something; empty parts and `.` do not. -/
def parts (p : String) : List String :=
  ((Text.fields (· == '/') p.toList).map String.ofList).filter (· != ".")

def render (absolute : Bool) (ps : List String) : String :=
  (if absolute then "/" else "") ++ "/".intercalate ps

/-- `p` seen from the directory `base`. -/
def join (base p : String) : String :=
  if isAbsolute p then p
  else if base.isEmpty || base.toList.getLast? == some '/' then base ++ p
  else base ++ "/" ++ p

/-- Fold one more part into a path, whose last part comes first. A `..` takes the last part away, or stays
where there is none. -/
def fold (stack : List String) (part : String) : List String :=
  if part == ".." then
    match stack with
    | [] => [".."]
    | _ :: rest => rest
  else part :: stack

/-- The path without `.` parts, and with `..` folded into the parts before it. -/
def normalize (p : String) : String :=
  let ps := ((parts p).foldl fold []).reverse
  if !isAbsolute p && ps.isEmpty then "." else render (isAbsolute p) ps

/-- A typed path, perhaps quoted and with backslashes, seen from the directory `cwd`. -/
def resolve (cwd p : String) : String :=
  normalize (join cwd (Text.replaceChar '\\' '/' (dequote p)))

/-- The last part of a path, unless the path ends in `..` or has no part. -/
def fileName? (p : String) : Option String :=
  (parts p).getLast?.bind fun n => if n == ".." then none else some n

/-- What stands before the last part; empty where nothing does. -/
def parentText (p : String) : String :=
  match parts p with
  | [] => ""
  | ps => render (isAbsolute p) ps.dropLast

/-- The name before its last dot and the rest from the dot on. A dot that starts the name does not count,
and without a dot the rest is empty. -/
def splitName (name : String) : String × String :=
  let cs := name.toList
  let tail := cs.reverse.takeWhile (· != '.')
  let before := cs.take (cs.length - tail.length - 1)
  if tail.length == cs.length || before.isEmpty then (name, "")
  else (String.ofList before, String.ofList ('.' :: tail.reverse))

def extension? (p : String) : Option String :=
  (fileName? p).bind fun n =>
    match (splitName n).2.toList with
    | [] => none
    | _ :: ext => some (String.ofList ext)

end Path

end BatchShell
