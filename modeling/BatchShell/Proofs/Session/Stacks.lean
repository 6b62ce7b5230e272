import BatchShell.Proofs.Engine.Frames

/-!
# Stack discipline

Whatever runs gives back both stacks of the engine as it found them: every loop it entered has been left
and every script it called has returned, also when a jump, an `EXIT`, a break or a limit cut through them
(`Engine.stacks_restored`). So a session has nothing on its stacks between two requests, however many were
served before (`Session.Idle`, kept by every step of `Session.Reaches`).
-/
namespace BatchShell

/-- What a session can be asked for. -/
inductive Request where
  | line (text : String)
  | script (name source : String) (args : List String)
  | file (path : String) (args : List String)
  deriving DecidableEq

namespace Session

/-- Answer a request. -/
def serve (s : Session) : Request → Answer
  | .line text => s.exec text
  | .script name source args => s.execScript name source args
  | .file path args => s.execFile path args

/-- The run that a request starts. -/
def run (s : Session) : Request → Run
  | .line text =>
    s.engine.runTask (.line ((s.machine.state.macros.expandLine? text).getD text)) s.stdin s.fresh
  | .script name source args =>
    s.engine.runTask (.script (.load name source) 0 (.ofCall name args)) s.stdin s.fresh
  | .file path args => callBatch s.engine.runTask (Path.resolve s.machine.state.cwd path) args s.stdin s.fresh

theorem serve_eq_finish (s : Session) (request : Request) : s.serve request = s.finish (s.run request) := by
  cases request <;> rfl

/-- The result of a request and the session afterwards, if there is one. -/
def Answer.served? (answer : Answer) : Option (Result × Session) := answer.bind Except.toOption

theorem Answer.served?_eq_some_iff {answer : Answer} {served : Result × Session} :
    answer.served? = some served ↔ answer = some (.ok served) := by
  rcases answer with _ | _ | _ <;> simp [served?, Except.toOption]

/-- A served request comes from a run that ended with a result or a signal. The session goes on with the machine
the run left, up to the status and the break that a signal leaves. -/
theorem exists_run_of_serve {s s' : Session} {request : Request} {r : Result}
    (h : s.serve request = some (.ok (r, s'))) :
    ∃ m, s.run request = some (.done r, m) ∧ s' = { s with machine := m } ∨
      ∃ signal out err, s.run request = some (.raised signal out err, m) ∧ r = finalResult signal out err ∧
        s' = { s with machine := (Machine.mk m.state (clearBreak signal m.host)).withStatus r.status } := by
  rw [serve_eq_finish, finish] at h
  obtain ⟨⟨o, m⟩, hrun, hend⟩ := Option.map_eq_some_iff.mp h
  cases o with
  | done result =>
    cases hend
    exact ⟨m, .inl ⟨hrun, rfl⟩⟩
  | raised signal out err =>
    cases hend
    exact ⟨m, .inr ⟨signal, out, err, hrun, rfl, rfl⟩⟩
  | crashed why => cases hend

/-- What a run keeps, a served request keeps, if neither the status nor a break matters. -/
theorem kept_of_serve {s s' : Session} {request : Request} {r : Result} (post : State → Prop)
    (h : s.serve request = some (.ok (r, s'))) (hrun : Ends (s.run request) fun _ m => post m.state)
    (hstatus : ∀ state status, post state → post { state with status := status }) : post s'.machine.state := by
  obtain ⟨m, ⟨hdone, rfl⟩ | ⟨signal, out, err, hraised, rfl, rfl⟩⟩ := exists_run_of_serve h
  · exact hrun _ m hdone
  · exact hstatus _ _ (hrun _ m hraised)

/-- The sessions that come of `s` by serving requests, with the world around it changing in between. -/
inductive Reaches (s : Session) : Session → Prop where
  | refl : Reaches s s
  | world {t : Session} (host : Host) (h : Reaches s t) :
    Reaches s { t with machine := { t.machine with host := host } }
  | serve {t t' : Session} {request : Request} {r : Result} (h : Reaches s t)
    (hserve : t.serve request = some (.ok (r, t'))) : Reaches s t'

/-- No script runs and no loop is active. -/
def Idle (s : Session) : Prop := s.machine.state.calls = [] ∧ s.machine.state.loops = []

theorem idle_start (options : SessionOptions) (runner : Runner) (matching : Matching) (host : Host) :
    (start options runner matching host).Idle := ⟨rfl, rfl⟩

/-- Whatever is asked for, the machine is left as a command leaves it. -/
theorem run_kept (s : Session) (request : Request) :
    Ends (s.run request) fun ending m => Kept s.machine.state ending m.state := by
  have hsound : Again.Sound s.engine.runTask := s.engine.perform_leaves maxLevels
  have hfresh : ∀ {ending m}, Kept s.fresh.state ending m → Kept s.machine.state ending m :=
    fun h => ⟨h.loops, h.calls, h.scopes, h.phase⟩
  cases request with
  | line text => exact (hsound _ s.stdin s.fresh).mono fun _ _ h => hfresh h.kept
  | script name source args => exact (hsound _ s.stdin s.fresh).mono fun _ _ h => hfresh h.kept
  | file path args => exact (callBatch_kept hsound _ args).mono fun _ _ h => hfresh h

theorem idle_serve {s s' : Session} {request : Request} {r : Result} (h : s.Idle)
    (hserve : s.serve request = some (.ok (r, s'))) : s'.Idle := by
  obtain ⟨hcalls, hloops⟩ := h
  refine kept_of_serve (fun state => state.calls = [] ∧ state.loops = []) hserve ?_ fun _ _ h => h
  refine (s.run_kept request).mono fun ending m hkept => ⟨?_, hkept.loops.trans hloops⟩
  have hshift := hkept.calls
  rw [hcalls] at hshift
  generalize m.state.calls = calls at hshift
  cases hshift
  rfl

theorem idle_reaches {s t : Session} (h : s.Idle) (hr : Reaches s t) : t.Idle := by
  induction hr with
  | refl => exact h
  | world host _ ih => exact ih
  | serve _ hserve ih => exact idle_serve ih hserve

end Session

/-- **Stack discipline.** However a line, a command or a script ends, the active loops are the ones that
were active before, and the scripts that run are the same, at the same lines, up to shifts of the innermost
one's parameters.
So after any series of requests to a session no script and no loop is left over. -/
theorem Engine.stacks_restored :
    (∀ (e : Engine) (levels : Nat) (task : Task) (stdin : String) (m m' : Machine) (o : Outcome),
      e.perform levels task stdin m = some (o, m') →
        m'.state.loops = m.state.loops ∧ Shifted m.state.calls m'.state.calls) ∧
    (∀ (options : SessionOptions) (runner : Runner) (matching : Matching) (host : Host) (s : Session),
      Session.Reaches (Session.start options runner matching host) s →
        s.machine.state.calls = [] ∧ s.machine.state.loops = []) := by
  refine ⟨fun e levels task stdin m m' o h => ?_, fun options runner matching host s h => ?_⟩
  · have hkept := (e.perform_leaves levels task stdin m o m' h).kept
    exact ⟨hkept.loops, hkept.calls⟩
  · exact Session.idle_reaches (Session.idle_start options runner matching host) h

/-- A session in an empty environment, on a machine without files. -/
def Session.bare : Session :=
  .start ⟨.empty, "/", none, none, none, none, none⟩ Engine.bare.runner .never Machine.inScript.host

/-- An `EXIT` that cuts through a loop after a shift, and a session that was asked for one line. -/
theorem Engine.stacks_restored_exit :
    (∃ o m', Engine.bare.perform 1 (.command (.loop ⟨'i', .items, ["a"], "a"⟩
          (.both (.simple ⟨"shift", [], "", []⟩) (.simple ⟨"exit", [], "", []⟩)))) "" .inScript =
            some (o, m') ∧
        m'.state.loops = [] ∧ Shifted Machine.inScript.state.calls m'.state.calls) ∧
      ∃ r s, Session.bare.serve (.line "exit") = some (.ok (r, s)) ∧
        s.machine.state.calls = [] ∧ s.machine.state.loops = [] := by
  have hloop : (Engine.bare.perform 1 (.command (.loop ⟨'i', .items, ["a"], "a"⟩
      (.both (.simple ⟨"shift", [], "", []⟩) (.simple ⟨"exit", [], "", []⟩)))) ""
        .inScript).isSome = true := by decide +kernel
  have hserve : (Session.bare.serve (.line "exit")).served?.isSome = true := by decide +kernel
  obtain ⟨⟨o, m'⟩, hrun⟩ := Option.isSome_iff_exists.mp hloop
  obtain ⟨⟨r, s⟩, hs⟩ := Option.isSome_iff_exists.mp hserve
  obtain ⟨hcommand, hsession⟩ := Engine.stacks_restored
  have hs := Session.Answer.served?_eq_some_iff.mp hs
  exact ⟨⟨o, m', hrun, hcommand _ _ _ _ _ _ _ hrun⟩, r, s, hs, hsession _ _ _ _ s (.serve .refl hs)⟩

end BatchShell
