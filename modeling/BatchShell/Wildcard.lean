import BatchShell.FileTree

/-!
# File patterns

`*` and `?` in the last part of a path stand for any characters and for one. What a pattern matches is left to a
`Glob`; here its directory is cut off, and what matches is sorted.

* `Wildcard.hasWildcards` tells a pattern from a plain name.
* `Wildcard.expand` lists the matching entries, with the directory as it was written.
-/
namespace BatchShell.Wildcard

open Text

inductive EntryKind where
  | files
  | directories
  | any
  deriving DecidableEq

def hasWildcards (text : String) : Bool := holds (fun c => c == '*' || c == '?') text

/-- A place that matches, and the name by which it was reached: none after `..`. -/
structure Found where
  place : Location
  name : Option String
  deriving DecidableEq

/-- The places that match the last part of a pattern in the directory with a path. -/
abbrev Glob := FileTree → String → String → List Found

def EntryKind.admits (kind : EntryKind) (tree : FileTree) (f : Found) : Bool :=
  match kind, tree.at? f.place with
  | .files, some (.file _) => true
  | .directories, some .directory => true
  | .any, _ => true
  | _, _ => false

def splitLast (text : String) : String × String :=
  let tail := text.toList.reverse.takeWhile (· != '/')
  let head := text.toList.reverse.dropWhile (· != '/')
  (String.ofList head.reverse, String.ofList tail.reverse)

/-- The entries that match a pattern seen from `cwd`, in the order of their names up to the case of `A` to
`Z`. The directory of the pattern is kept as it was written. -/
def expand (glob : Glob) (tree : FileTree) (cwd pattern : String) (kind : EntryKind) : List String :=
  let text := replaceChar '\\' '/' (dequote pattern)
  let (directory, file) := splitLast text
  let found := (glob tree (Path.join cwd directory) file).filter (kind.admits tree)
  (found.filterMap fun f => f.name.map (directory ++ ·)).mergeSort
    fun a b => decide (lower a ≤ lower b)

end BatchShell.Wildcard
