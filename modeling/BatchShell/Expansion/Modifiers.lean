import BatchShell.FileTree

/-!
# Parts of paths

The letters after a percent sign and a tilde take parts of a path: `f` the full path, `d` the drive, `p`
the directory with a slash at its end, `n` the name without extension, `x` the extension; `a` the
attributes, `t` the time of last change, `z` the size. Without a letter only the quotes go.
-/
namespace BatchShell.Expansion

def isModifier (c : Char) : Bool := "fdpnxsatz".toList.contains c.toLower

/-- The drive at the start of a text: one byte and a colon. -/
def driveText (p : String) : String :=
  match p.toList with
  | c :: ':' :: _ => if c.toNat < 128 then String.ofList [c, ':'] else ""
  | _ => ""

def dropDrive (p : String) : String :=
  match p.toList with
  | c :: ':' :: rest => if c.toNat < 128 then String.ofList rest else p
  | _ => p

/-- The directory of a path, without its drive and with a slash at its end. -/
def directoryText (full : String) : String :=
  let dir := Path.parentText full
  dropDrive (if dir.toList.getLast? == some '/' then dir else dir ++ "/")

/-- The parts of a full path that the letters ask for; `f` asks for all of them. -/
def pathParts (full : String) (letters : List Char) : String :=
  let asks (c : Char) : Bool := letters.contains c || letters.contains 'f'
  if !letters.any (fun c => "dpnx".toList.contains c) then full
  else
    let (stem, ext) := Path.splitName ((Path.fileName? full).getD "")
    (if asks 'd' then driveText full else "") ++ (if asks 'p' then directoryText full else "") ++
      (if asks 'n' then stem else "") ++ (if asks 'x' then ext else "")

def attributeText : Entry → String
  | .directory => "d--------"
  | .file data => if data.readOnly then "-r-------" else "--a------"

def sizeText : Entry → String
  | .directory => ""
  | .file data => toString data.contents.size

/-- What the letters ask for of a value: attributes, time, size and path parts, those that are not empty,
with blanks between them. -/
def applyModifiers (files : FileTree) (cwd value : String) (modifiers : List Char) : String :=
  let plain := dequote value
  let letters := modifiers.map Char.toLower
  if letters.isEmpty || plain.isEmpty then plain
  else
    let full := Path.resolve cwd plain
    let entry := files.entry? full
    let found : List String :=
      [ if letters.contains 'a' then (entry.map attributeText).getD "" else "",
        if letters.contains 't' then (entry.map fun _ => files.modified).getD "" else "",
        if letters.contains 'z' then (entry.map sizeText).getD "" else "",
        if letters.any (fun c => "fdpnx".toList.contains c) then pathParts full letters else "" ]
    " ".intercalate (found.filter fun s => !s.isEmpty)

end BatchShell.Expansion
