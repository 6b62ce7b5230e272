import BatchShell.Builtin.Name
import BatchShell.State
import BatchShell.Text.Folding

/-!
# Finding commands

A name means an internal command, or else the first file found for it: in the working directory, then in
the directories of `PATH`; in each the name as it is, then with the extensions of `PATHEXT`. A name with a
slash or backslash is looked up at that path only. Batch files are run by the interpreter, other files have
to be executable.

* `Resolution.find` gives the meaning of a name.
-/
namespace BatchShell

open Text

inductive Resolution where
  | builtin (command : Builtin)
  | batch (path : String)
  | program (path : String)
  | notFound
  deriving DecidableEq

namespace Resolution

def defaultExtensions : String := ".COM;.EXE;.BAT;.CMD"

def splitList (separates : Char → Bool) (text : String) : List String :=
  ((pieces separates text).map trim).filter fun part => !part.isEmpty

def splitPath (text : String) : List String := splitList (fun c => c == ';' || c == ':') text

def isPathCommand (name : String) : Bool := holds (fun c => c == '/' || c == '\\') name

def isBatchFile (path : String) : Bool :=
  match Path.extension? path with
  | some ext => sameIgnoringCase ext "BAT" || sameIgnoringCase ext "CMD"
  | none => false

/-- What the file at a path can be run as. -/
def ofFile? (files : FileTree) (path : String) : Option Resolution :=
  (files.file? path).bind fun data =>
    if isBatchFile path then some (.batch path)
    else if data.executable then some (.program path) else none

/-- The spellings of an extension that are tried. -/
def spellings (ext : String) : List String :=
  if lowerCase ext == ext then [ext] else [ext, lowerCase ext]

/-- A path without the `.` parts and slashes at its end. -/
def dropTail (path : String) : String :=
  let rec go : List Char → List Char
    | '/' :: cs => go cs
    | '.' :: '/' :: cs => go cs
    | cs => cs
  String.ofList (go path.toList.reverse).reverse

/-- Try a path as it is and with each extension. -/
def probe? (files : FileTree) (extensions : List String) (path : String) : Option Resolution :=
  match ofFile? files path with
  | some found => some found
  | none =>
    if (Path.fileName? path).isSome then
      (extensions.flatMap spellings).findSome? fun ext => ofFile? files (dropTail path ++ ext)
    else none

def extensions (env : Environment) : List String :=
  splitList (· == ';') ((env.get? "PATHEXT").getD defaultExtensions)

/-- The directories that are searched. -/
def directories (env : Environment) (cwd : String) : List String :=
  cwd :: (splitPath ((env.get? "PATH").getD "")).map (Path.resolve cwd)

def find (files : FileTree) (env : Environment) (cwd name : String) : Resolution :=
  let plain := dequote name
  if plain.isEmpty then .notFound
  else
    match Builtin.ofName? plain with
    | some command => .builtin command
    | none =>
      let found :=
        if isPathCommand plain then probe? files (extensions env) (Path.resolve cwd plain)
        else (directories env cwd).findSome? fun dir => probe? files (extensions env) (Path.join dir plain)
      found.getD .notFound

end Resolution

end BatchShell
