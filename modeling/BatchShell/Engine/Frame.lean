import BatchShell.Engine.Basic
import BatchShell.Expansion.Prompt

/-!
# Scripts

A script or subroutine runs line by line in a frame of its own. `GOTO` moves to another line, `EXIT /B` and
`GOTO :EOF` end the frame. At the end the scopes it opened are closed, and echoing is as it was.
-/
namespace BatchShell

def State.goTo (s : State) (next : Nat) : State :=
  match s.calls with
  | [] => s
  | frame :: outer => { s with calls := { frame with next := next } :: outer }

/-- The line of the innermost frame that runs next. -/
def State.nextLine? (s : State) : Option (Nat × ScriptLine) :=
  s.calls.head?.bind fun frame => frame.script.lines[frame.next]?.map (frame.next, ·)

def State.promptTemplate (s : State) : String := (s.env.get? "PROMPT").getD Expansion.defaultPrompt

/-- How a line is echoed before it runs: under the prompt, unless it starts with `@`. -/
def echoedLine (now : Nat → Ambient) (s : State) (line : String) : String :=
  let text := Text.trimStart line
  if s.echo && text.toList.head? != some '@' then
    "\n" ++ Expansion.expandPrompt now s.cwd s.promptTemplate ++ text ++ "\n"
  else ""

/-- Where a jump to a label leads in the innermost frame. -/
def State.labelTarget? (s : State) (label : String) : Option Nat :=
  (s.calls.head?.bind fun frame => frame.script.findLabel? label).map (· + 1)

/-- Run the lines of the innermost frame until it ends, at most `steps` of them. `out` and `err` were
written before. -/
def runLines (again : Again) (stdin : String) : Nat → String → String → Machine → Run
  | 0, _, _, _ => none
  | steps + 1, out, err, m =>
    match m.state.nextLine? with
    | none => some (.done ⟨out, err, m.state.status⟩, m)
    | some (index, line) =>
      let m := m.withState (m.state.goTo (index + 1))
      match line.kind with
      | .command =>
        let out := out ++ echoedLine m.host.now m.state line.text
        let m := m.pass m.state.promptTemplate.length
        match again (.line line.text) stdin m with
        | none => none
        | some (.done r, m) => runLines again stdin steps (out ++ r.stdout) (err ++ r.stderr) m
        | some (.raised (.goto label) o e, m) =>
          if Signal.isEndOfFile label then
            some (.done ⟨out ++ o, err ++ e, m.state.status⟩, m)
          else
            match m.state.labelTarget? label with
            | some target =>
              runLines again stdin steps (out ++ o) (err ++ e) (m.withState (m.state.goTo target))
            | none =>
              some (.raised (.labelNotFound label) (out ++ o) (err ++ e ++ labelNotFoundText label), m)
        | some (.raised (.exit status true) o e, m) =>
          some (.done ⟨out ++ o, err ++ e, status⟩, m.withStatus status)
        | some (.raised signal o e, m) => some (.raised signal (out ++ o) (err ++ e), m)
        | some (.crashed why, m) => some (.crashed why, m)
      | _ => runLines again stdin steps out err m

/-- Enter a frame. A frame inside another is a call. -/
def State.pushCall (s : State) (script : Script) (start : Nat) (params : Params) : State :=
  let entered := if s.calls.isEmpty then s else s.enterPhase .calling
  { entered with calls := ⟨script, start, params, s.echo, s.env.depth⟩ :: s.calls }

/-- Leave the innermost frame, which was entered in a phase. -/
def State.popCall (s : State) (phase : Phase) : State :=
  match s.calls with
  | [] => s.enterPhase phase
  | frame :: outer =>
    { s.enterPhase phase with
      calls := outer
      env := s.env.truncateScopes frame.scopeMarker
      echo := frame.savedEcho }

/-- How many lines a script can run: a jump needs a command, and the commands are bounded. -/
def Limits.scriptSteps (limits : Limits) (script : Script) : Nat :=
  (limits.commands + 2) * (script.lines.length + 1)

def Engine.runScript (e : Engine) (again : Again) (script : Script) (start : Nat) (params : Params)
    (stdin : String) (m : Machine) : Run :=
  let depth := m.state.calls.length
  if e.limits.callDepth ≤ depth then
    some (.raised (.recursionLimit depth) "" (recursionLimitText depth), m)
  else
    (runLines again stdin (e.limits.scriptSteps script) "" ""
      (m.withState (m.state.pushCall script start params))).map fun (o, after) =>
        (o, after.withState (after.state.popCall m.state.phase))

end BatchShell
