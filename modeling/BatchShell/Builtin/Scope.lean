import BatchShell.Outcome

/-!
# SETLOCAL and ENDLOCAL

Open and close a local scope of variables. A script cannot close a scope that its caller opened.
-/
namespace BatchShell.Builtin

/-- How many scopes were open when the running script started. -/
def scopeFloor (s : State) : Nat := (s.calls.head?.map (·.scopeMarker)).getD 0

def runSetlocal (s : State) : Result × State := (.ok, { s with env := s.env.pushScope })

/-- `ENDLOCAL`. Without a scope to close the status stays as it was. -/
def runEndlocal (s : State) : Result × State :=
  match if s.env.depth ≤ scopeFloor s then none else s.env.popScope? with
  | some env => (.ok, { s with env := env })
  | none => (⟨"", scopeUnderflow ++ "\n", s.status⟩, s)

end BatchShell.Builtin
