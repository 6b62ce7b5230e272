import BatchShell.Wildcard

/-!
# Matching names

A stand-in for the library that matches file patterns. The case of the letters `A` to `Z` does not matter. A
part that holds none of `*`, `?`, `[` and `]` names an entry and is looked up as it is; the directory parts of a
pattern hold no wildcards, so any sign in them stands for itself.
-/
namespace BatchShell.Glob

open Text Wildcard

inductive Sign where
  | char (c : Char)
  /-- Any one character. -/
  | one
  /-- Any characters, or none. -/
  | many
  deriving DecidableEq

/-- Does a name match a pattern, up to the case of `A` to `Z`? -/
def accepts : List Sign → List Char → Bool
  | [], cs => cs.isEmpty
  | .char c :: ps, cs =>
    match cs with
    | [] => false
    | d :: ds => c.toUpper == d.toUpper && accepts ps ds
  | .one :: ps, cs =>
    match cs with
    | [] => false
    | _ :: ds => accepts ps ds
  | .many :: ps, cs =>
    accepts ps cs ||
      match cs with
      | [] => false
      | _ :: ds => accepts (.many :: ps) ds
  termination_by ps cs => (ps.length, cs.length)

inductive Part where
  /-- A name that is looked up. -/
  | name (text : String)
  /-- Names that match. -/
  | pattern (signs : List Sign)
  /-- All directories below. -/
  | below
  deriving DecidableEq

/-- Does a part have to be compared with the names of a directory? -/
def isPattern (text : String) : Bool :=
  holds (fun c => c == '*' || c == '?' || c == '[' || c == ']') text

def directoryPart (text : String) : Part :=
  if isPattern text then .pattern (text.toList.map .char) else .name text

def signs (text : String) : List Sign :=
  text.toList.map fun c => if c == '*' then .many else if c == '?' then .one else .char c

/-- The last part of a pattern. `**` alone means all directories below; elsewhere two stars in a row are
no pattern. -/
def filePart? (text : String) : Option Part :=
  if text == "**" then some .below
  else if contains text "**" then none
  else if isPattern text then some (.pattern (signs text))
  else some (.name text)

def isDirectory (tree : FileTree) (f : Found) : Bool := tree.isDirectoryAt f.place

def child (f : Found) (name : String) : Found := ⟨f.place ++ [name], some name⟩

/-- The directories below a place, each before those it holds. A tree is no deeper than `fuel`. -/
def subdirectories (tree : FileTree) : Nat → Found → List Found
  | 0, _ => []
  | fuel + 1, f =>
    ((tree.children f.place).map (child f)).flatMap fun c =>
      if isDirectory tree c then c :: subdirectories tree fuel c else []

/-- Where one more part leads from a place. The entries `.` and `..` of a directory match only a pattern
that starts with a dot. -/
def step (tree : FileTree) (part : Part) (f : Found) : List Found :=
  if !isDirectory tree f then []
  else
    match part with
    | .name text =>
      if text.isEmpty || text == "." then [f]
      else if text == ".." then [⟨f.place.dropLast, none⟩]
      else if (tree.at? (child f text).place).isSome then [child f text] else []
    | .pattern ps =>
      let dots := if ps.head? == some (.char '.') then
          (if accepts ps ['.', '.'] then [⟨f.place.dropLast, none⟩] else []) ++
            (if accepts ps ['.'] then [f] else [])
        else []
      dots ++ ((tree.children f.place).filter fun n => accepts ps n.toList).map (child f)
    | .below => subdirectories tree tree.depth f

/-- The places that match a pattern whose last part is `file`, below `base`. -/
def matching (tree : FileTree) (base file : String) : List Found :=
  match filePart? file with
  | none => []
  | some last =>
    let trimmed := dropEnd (· == '/') base
    let start : Found := ⟨if Path.isAbsolute base then [] else tree.origin, none⟩
    let dirs := ((pieces (· == '/') trimmed).map directoryPart)
    let found := dirs.foldl (fun fs part => fs.flatMap (step tree part)) [start]
    found.flatMap (step tree last)

end BatchShell.Glob
