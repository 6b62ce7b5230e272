import BatchShell.Arithmetic.Eval
import BatchShell.Complaint
import BatchShell.Outcome

/-!
# SET

Lists variables, assigns a text or the value of an expression, or reads a line of input into a variable.
-/
namespace BatchShell.Builtin

open Text

/-- What follows a switch such as `/A`, if the text starts with it. The switch ends at a blank or a
quote. -/
def afterSwitch? (letter : Char) (text : String) : Option String :=
  match text.toList with
  | '/' :: c :: rest =>
    if c.toUpper != letter then none
    else
      match rest with
      | [] => some ""
      | d :: _ => if isBlank d || d == '"' then some (trimStart (String.ofList rest)) else none
  | _ => none

/-- The text between an opening quote and the last quote; a text that no quote opens stays. -/
def unquote (text : String) : String :=
  match text.toList with
  | '"' :: inner =>
    match inner.reverse.dropWhile (· != '"') with
    | [] => String.ofList inner
    | _ :: before => String.ofList before.reverse
  | _ => text

def listVariables (s : State) (start : String) : Result :=
  match s.env.withPrefix start with
  | [] => .failure ("Environment variable " ++ start ++ " not defined\n")
  | vars => .output (String.join (vars.map fun v => v.name ++ "=" ++ v.value ++ "\n"))

/-- `SET /A`. At the prompt the value is shown. -/
def setArithmetic (s : State) (expression : String) : Outcome × State :=
  if (trim expression).isEmpty then (.done (.failure Complaint.badForm), s)
  else
    let (value, env) := Arithmetic.evaluate expression s.env
    let outcome : Outcome := match value with
      | .ok n => .done (if s.inBatch then .ok else .output (toString n))
      | .error (.fault fault) => .done (.failure (fault.message ++ "\n"))
      | .error (.crashed why) => .crashed why
    (outcome, { s with env := env })

def assignment? (text : String) : Option (String × String) :=
  match cutAt '=' text with
  | some (name, value) => if name.isEmpty then none else some (name, value)
  | none => none

/-- `SET /P`: show the prompt and read the first line of input. Without input the variable stays. -/
def setPrompt (s : State) (text stdin : String) : Result × State :=
  match assignment? (unquote text) with
  | none => (.failure Complaint.badForm, s)
  | some (name, prompt) =>
    match (lines stdin).head? with
    | none | some "" => (⟨prompt, "", 1⟩, s)
    | some value => (.output prompt, { s with env := s.env.set name value })

/-- `SET name=value`; an empty value deletes the variable. -/
def setVariable (s : State) (name value : String) : State :=
  { s with env := if value.isEmpty then s.env.unset name else s.env.set name value }

def runSet (s : State) (raw stdin : String) : Outcome × State :=
  let text := trimStart raw
  let plain (r : Result × State) : Outcome × State := (.done r.1, r.2)
  match afterSwitch? 'A' text, afterSwitch? 'P' text with
  | some expression, _ => setArithmetic s expression
  | none, some rest => plain (setPrompt s rest stdin)
  | none, none =>
    if (trim text).isEmpty then plain (listVariables s "", s)
    else
      let body := unquote text
      match cutAt '=' body with
      | none => plain (listVariables s (trim body), s)
      | some (name, value) =>
        plain (if name.isEmpty then (.failure Complaint.badForm, s) else (.ok, setVariable s name value))

end BatchShell.Builtin
