import BatchShell.Outcome

/-!
# ECHO

Prints a text as it was written, shows whether command lines are echoed, or switches that on and off. A
name such as `ECHO.` has the text right after the sign that ends the word.
-/
namespace BatchShell.Builtin

open Text

/-- The signs that end the word `ECHO` and start its text. -/
def endsEcho (c : Char) : Bool := ".(:;,=+/[]\\".toList.contains c

/-- The text after `ECHO` and a sign that ends it. -/
def echoText? (name : String) : Option String :=
  match name.toList with
  | a :: b :: c :: d :: sign :: rest =>
    if sameIgnoringCase (String.ofList [a, b, c, d]) "ECHO" && endsEcho sign then
      some (String.ofList rest)
    else none
  | _ => none

def printLine (text : String) : Result := .output (text ++ "\n")

/-- `ECHO` with the text after its name. One blank after the name does not belong to the message. -/
def runEcho (s : State) (raw : String) : Result × State :=
  let message := match raw.toList with
    | c :: cs => if isBlank c then String.ofList cs else raw
    | [] => raw
  let word := trim message
  if word.isEmpty then (printLine ("ECHO is " ++ (if s.echo then "on" else "off") ++ "."), s)
  else if sameIgnoringCase word "ON" then (.ok, { s with echo := true })
  else if sameIgnoringCase word "OFF" then (.ok, { s with echo := false })
  else (printLine message, s)

end BatchShell.Builtin
