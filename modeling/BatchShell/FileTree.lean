import BatchShell.Path
import BatchShell.Text.Utf8

/-!
# Files and directories

A tree of directories and files, held as a table from locations to entries. A location is the list of
names from the root; the root itself is always there. Relative paths start at the directory `origin`.

* `FileTree.read?` gives the contents of a file.
* `FileTree.openOutput?` and `append?` write to a file and create it if its directory exists.
* `FileTree.children` lists a directory in the order of the names.
-/
namespace BatchShell

structure FileData where
  contents : ByteArray
  executable : Bool
  readOnly : Bool

inductive Entry where
  | directory
  | file (data : FileData)

/-- A place in the tree: the names from the root. -/
abbrev Location := List String

/-- All entries but the root, the directory where relative paths start, and the time of last change that
is shown for every entry. -/
structure FileTree where
  entries : List (Location × Entry)
  origin : Location
  modified : String
  /-- May files be written that are read-only? A privileged user may. -/
  privileged : Bool

namespace FileTree

def empty : FileTree := ⟨[], [], "01/01/2000 12:00 AM", false⟩

def at? (tree : FileTree) (place : Location) : Option Entry :=
  if place.isEmpty then some .directory else tree.entries.lookup place

def isDirectoryAt (tree : FileTree) (place : Location) : Bool :=
  match tree.at? place with
  | some .directory => true
  | _ => false

/-- Follow names from a location; every place that is left has to be a directory. -/
def walk (tree : FileTree) (place : Location) : List String → Option Location
  | [] => some place
  | name :: names =>
    if tree.isDirectoryAt place then
      tree.walk (if name == ".." then place.dropLast else place ++ [name]) names
    else none

/-- The location that a path leads to; nothing need stand there. -/
def locate (tree : FileTree) (path : String) : Option Location :=
  if path.isEmpty then none
  else tree.walk (if Path.isAbsolute path then [] else tree.origin) (Path.parts path)

def entry? (tree : FileTree) (path : String) : Option Entry := (tree.locate path).bind tree.at?

def has (tree : FileTree) (path : String) : Bool := (tree.entry? path).isSome

def isDirectory (tree : FileTree) (path : String) : Bool :=
  match tree.entry? path with
  | some .directory => true
  | _ => false

def file? (tree : FileTree) (path : String) : Option FileData :=
  match tree.entry? path with
  | some (.file data) => some data
  | _ => none

def read? (tree : FileTree) (path : String) : Option ByteArray := (tree.file? path).map (·.contents)

def readText? (tree : FileTree) (path : String) : Option String := (tree.read? path).map Text.decode

/-- The names in a directory, in order. -/
def children (tree : FileTree) (place : Location) : List String :=
  (tree.entries.filterMap fun (p, _) =>
    if p.dropLast == place then p.getLast? else none).mergeSort fun a b => decide (a ≤ b)

def depth (tree : FileTree) : Nat := (tree.entries.map (·.1.length)).foldl max 0

/-- Put an entry at a location, in place of what stood there. -/
def put (tree : FileTree) (place : Location) (entry : Entry) : FileTree :=
  let rec go : List (Location × Entry) → List (Location × Entry)
    | [] => [(place, entry)]
    | (p, e) :: rest => if p == place then (place, entry) :: rest else (p, e) :: go rest
  { tree with entries := go tree.entries }

/-- A name that a new file may have. -/
def validName (name : String) : Bool :=
  name != ".." && name.utf8ByteSize ≤ 255 && !Text.holds (· == Char.ofNat 0) name

/-- Write to a file through `change`, which is given the old contents; a missing file is created with no
contents. Fails when the path leads to a directory or a file that may not be written, or its directory is
missing. -/
def write? (tree : FileTree) (path : String) (change : ByteArray → ByteArray) : Option FileTree :=
  (tree.locate path).bind fun place =>
    match tree.at? place with
    | some .directory => none
    | some (.file data) =>
      if data.readOnly && !tree.privileged then none
      else some (tree.put place (.file { data with contents := change data.contents }))
    | none =>
      if (place.getLast?.map validName).getD false then
        some (tree.put place (.file ⟨change ByteArray.empty, false, false⟩))
      else none

/-- Open a file for output: create it if it is missing, empty it unless output is appended. -/
def openOutput? (tree : FileTree) (path : String) (append : Bool) : Option FileTree :=
  tree.write? path fun old => if append then old else ByteArray.empty

def append? (tree : FileTree) (path : String) (text : String) : Option FileTree :=
  tree.write? path fun old => old ++ Text.encode text

/-- Make a directory and those it stands in. -/
def makeDirectory (tree : FileTree) (place : Location) : FileTree :=
  (List.range place.length).foldl (fun t n =>
    let upTo := place.take (n + 1)
    match t.at? upTo with
    | some _ => t
    | none => t.put upTo .directory) tree

def makeFile (tree : FileTree) (place : Location) (data : FileData) : FileTree :=
  (tree.makeDirectory place.dropLast).put place (.file data)

/-- Everything below a location: the path from there, with a slash after a directory's, and the contents
of a file; in the order of the paths. -/
def listing (tree : FileTree) (place : Location) : List (String × Option ByteArray) :=
  let found := tree.entries.filterMap fun (p, e) =>
    if place.isPrefixOf p && place.length < p.length then
      let rel := "/".intercalate (p.drop place.length)
      match e with
      | .directory => some (rel ++ "/", none)
      | .file data => some (rel, some data.contents)
    else none
  found.mergeSort fun a b => decide (a.1 ≤ b.1)

end FileTree

end BatchShell
