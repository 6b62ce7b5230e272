import BatchShell.Complaint
import BatchShell.Outcome

/-!
# CD, PUSHD and POPD

Show and change the working directory, with a stack to return by.
-/
namespace BatchShell.Builtin

open Text

def directory? (files : FileTree) (s : State) (text : String) : Option String :=
  let path := Path.resolve s.cwd (trim text)
  if files.isDirectory path then some path else none

/-- The text after the switch `/D`, which may stand before a directory. The switch is looked for in the
first two bytes, which may end inside a character. -/
def dropDriveSwitch (text : String) : Except Crash String :=
  if text.utf8ByteSize < 2 then .ok text
  else
    match cutBytes? 2 text.toList with
    | none => .error .splitCharacter
    | some (start, rest) =>
      .ok (if sameIgnoringCase (String.ofList start) "/D" then trimStart (String.ofList rest) else text)

def runCd (files : FileTree) (s : State) (raw : String) : Outcome × State :=
  match dropDriveSwitch (trim raw) with
  | .error why => (.crashed why, s)
  | .ok text =>
    if text.isEmpty then (.done (.output (s.cwd ++ "\n")), s)
    else
      match directory? files s text with
      | some path => (.done .ok, { s with cwd := path })
      | none => (.done (.failure Complaint.pathNotFound), s)

/-- However `CD` ends, at most the working directory is another. -/
theorem exists_cwd_runCd (files : FileTree) (s : State) (raw : String) :
    ∃ path, (runCd files s raw).2 = { s with cwd := path } := by
  unfold runCd
  cases dropDriveSwitch (trim raw) with
  | error why => exact ⟨s.cwd, rfl⟩
  | ok text =>
    dsimp only
    split
    · exact ⟨s.cwd, rfl⟩
    · split
      · exact ⟨_, rfl⟩
      · exact ⟨s.cwd, rfl⟩

def runPushd (files : FileTree) (s : State) (raw : String) : Result × State :=
  let text := trim raw
  if text.isEmpty then (.output (String.join (s.directories.map (· ++ "\n"))), s)
  else
    match directory? files s text with
    | some path => (.ok, { s with cwd := path, directories := s.cwd :: s.directories })
    | none => (.failure Complaint.pathNotFound, s)

/-- `POPD`. Nothing to return to is no failure. -/
def runPopd (s : State) : Result × State :=
  match s.directories with
  | [] => (.ok, s)
  | path :: rest => (.ok, { s with cwd := path, directories := rest })

end BatchShell.Builtin
