import BatchShell.Ambient
import BatchShell.Complaint
import BatchShell.Outcome

/-!
# PAUSE, CLS, VER, TITLE, VERIFY and DOSKEY

Commands that concern the console and the settings of a session.
-/
namespace BatchShell.Builtin

open Text

/-- `PAUSE`. It takes no input. -/
def runPause : Result := .output "Press any key to continue . . . \n"

def runCls : Result := .output "\x1b[2J\x1b[H"

def runVer : Result := .output ("\n" ++ versionBanner ++ "\n")

def runTitle (s : State) (raw : String) : Result × State := (.ok, { s with title := some (trim raw) })

/-- `VERIFY`: show or switch a setting that is only recorded. -/
def runVerify (s : State) (args : List String) : Result × State :=
  match args with
  | [] => (.output ("VERIFY is " ++ (if s.verify then "on" else "off") ++ ".\n"), s)
  | [arg] =>
    if sameIgnoringCase arg "ON" then (.ok, { s with verify := true })
    else if sameIgnoringCase arg "OFF" then (.ok, { s with verify := false })
    else (.failure "Must specify ON or OFF.\n", s)
  | _ => (.failure Complaint.badForm, s)

/-- The switches of `DOSKEY` that do nothing here. -/
def silentSwitches : List String :=
  ["/H", "/HISTORY", "/REINSTALL", "/LISTSIZE", "/INSERT", "/OVERSTRIKE", "/EXENAME", "/MACROFILE"]

/-- The switches that start a text: the first word, if it starts with a slash, and the text after it. -/
def leadingSwitch? (text : List Char) : Option (List Char × List Char) :=
  match text with
  | '/' :: rest =>
    some ('/' :: rest.takeWhile (fun c => !isBlank c),
      (rest.dropWhile fun c => !isBlank c).dropWhile isBlank)
  | _ => none

theorem length_leadingSwitch?_lt {text word rest : List Char}
    (h : leadingSwitch? text = some (word, rest)) : rest.length < text.length := by
  unfold leadingSwitch? at h
  split at h
  · rename_i tail
    cases h
    have h₁ := (List.dropWhile_suffix (l := tail) (fun c => !isBlank c)).length_le
    have h₂ := (List.dropWhile_suffix (l := tail.dropWhile (fun c => !isBlank c)) isBlank).length_le
    simp only [List.length_cons]
    omega
  · cases h

/-- Obey the switches before a macro's definition. Gives the output and the rest of the text, or the
switch that is not known. -/
def obeySwitches (s : State) (out : String) (text : List Char) : Except String (String × List Char) :=
  match _h : leadingSwitch? text with
  | none => .ok (out, text)
  | some (word, rest) =>
    let name := upper (String.ofList (word.takeWhile fun c => c != ':' && c != '='))
    if name == "/M" || name == "/MACROS" then
      obeySwitches s (out ++ String.join (s.macros.list.map (· ++ "\n"))) rest
    else if silentSwitches.contains name then obeySwitches s out rest
    else .error (String.ofList word)
  termination_by text.length
  decreasing_by all_goals exact length_leadingSwitch?_lt _h

/-- `DOSKEY` with the text after its name: list, define or delete macros. -/
def runDoskey (s : State) (raw : String) : Result × State :=
  let invalid := Result.failure "Invalid macro definition.\n"
  match obeySwitches s "" (trim raw).toList with
  | .error word => (.failure ("Invalid switch - " ++ word ++ "\n"), s)
  | .ok (out, []) => (.output out, s)
  | .ok (out, text) =>
    match cutAt '=' (String.ofList text) with
    | none => (invalid, s)
    | some (name, definition) =>
      let name := trim name
      if name.isEmpty || holds isBlank name then (invalid, s)
      else (.output out, { s with macros := s.macros.define name definition })

end BatchShell.Builtin
