import BatchShell.Proofs.Session.Stacks

/-!
# One exit status

The status of a result stands in two places: in the result, where `&&` and `||` look, and in the state,
where `IF ERRORLEVEL` and `%ERRORLEVEL%` do. `Recorded` says that the two agree. Every command records its
status or keeps the old one and reports that (`runCommand_recorded`, by induction on the command), and so
do lines and scripts (`Engine.perform_recorded`).

A session passes on what its run gives. There is one request that runs nothing: a batch file that cannot
be read. Its result has status 1, and nothing records it (`callBatch_missing`). So for a request the two
statuses agree exactly if no such file was asked for or the status was 1 before.
-/
namespace BatchShell

/-- The status with which something came to its end is the one the machine holds. -/
def Recorded (ending : Ending) (m : Machine) : Prop :=
  ∀ status, ending = .status status → m.state.status = status

namespace Recorded

variable {m : Machine}

theorem status (m : Machine) : Recorded (.status m.state.status) m := by
  intro status h
  cases h
  rfl

theorem withStatus (m : Machine) (status : Status) : Recorded (.status status) (m.withStatus status) :=
  Recorded.status (m.withStatus status)

/-- What stops has no status to record. -/
theorem of_stops {ending : Ending} (h : ending.stops) (m : Machine) : Recorded ending m := by
  rintro status rfl
  cases h

theorem signal (s : Signal) (m : Machine) : Recorded (.signal s) m := .of_stops rfl m

theorem crashed (why : Crash) (m : Machine) : Recorded (.crashed why) m := .of_stops rfl m

end Recorded

@[simp] theorem State.popCall_status (s : State) (phase : Phase) : (s.popCall phase).status = s.status := by
  unfold State.popCall
  split <;> simp

section

variable {e : Engine} {again : Again} {m : Machine} {stdin : String}

theorem recorded_recorded (run : Run) : Ends (Run.recorded run) Recorded := by
  have hany : Ends run fun _ _ => True := fun _ _ _ => trivial
  exact hany.recorded (fun status m _ => .withStatus m status) fun _ m hstops _ => .of_stops hstops m

theorem counted_recorded {body : Machine → Run} (h : Ends (body m.count.noteStart) Recorded) :
    Ends (e.counted m body) Recorded :=
  .counted (.signal _ _) (.signal _ _) h

theorem runSimple_recorded (called : Bool) (c : SimpleCommand) :
    Ends (e.runSimple again called c stdin m) Recorded := by
  unfold Engine.runSimple
  dsimp only
  refine .redirected (fun files => .withStatus _ 1) fun stdin files => ?_
  split
  · exact .ended fun _ => .status _
  · exact (recorded_recorded _).mono fun _ _ h _ => h

/-- Each construct records a status itself or passes on the result of the part that ran last. -/
theorem runCommand_recorded (c : Command) : ∀ (stdin : String) (m : Machine),
    Ends (e.runCommand again c stdin m) Recorded := by
  induction c with
  | simple c =>
    intro stdin m
    exact counted_recorded (runSimple_recorded false c)
  | block body rs _ =>
    intro stdin m
    exact counted_recorded (recorded_recorded _)
  | ifThen c body _ =>
    intro stdin m
    refine counted_recorded ?_
    split
    · exact .ended (.crashed _ _)
    · exact recorded_recorded _
    · exact .ended (.status _)
  | ifElse c body other _ _ =>
    intro stdin m
    refine counted_recorded ?_
    split
    · exact .ended (.crashed _ _)
    · exact recorded_recorded _
    · exact recorded_recorded _
  | loop head body _ =>
    intro stdin m
    exact counted_recorded (recorded_recorded _)
  | pipe left right _ _ =>
    intro stdin m
    exact .runPipeline fun _ status => .withStatus _ status
  | both left right ih ih' =>
    intro stdin m
    exact (ih stdin m).andThen (fun _ _ _ h => h) fun _ m' _ => ih' stdin m'
  | andThen left right ih ih' =>
    intro stdin m
    refine (ih stdin m).andThen (fun _ _ _ h => h) fun r m' h => ?_
    split
    · exact ih' stdin m'
    · exact .ended h
  | orElse left right ih ih' =>
    intro stdin m
    refine (ih stdin m).andThen (fun _ _ _ h => h) fun r m' h => ?_
    split
    · exact .ended h
    · exact ih' stdin m'

theorem runLine_recorded (line : String) : Ends (e.runLine again line stdin m) Recorded := by
  unfold Engine.runLine
  dsimp only
  split
  · exact .ended (.crashed _ _)
  · split
    · exact .ended (.status _)
    · exact .ended (.status _)
    · exact runCommand_recorded _ stdin _

/-- A frame ends with the status of the moment, which leaving it does not change. -/
theorem runScript_recorded (script : Script) (start : Nat) (params : Params) :
    Ends (e.runScript again script start params stdin m) Recorded := by
  have hpop : ∀ m' : Machine, Recorded (.status m'.state.status)
      (m'.withState (m'.state.popCall m.state.phase)) := by
    intro m' status h
    cases h
    exact State.popCall_status _ _
  refine .runScript (fun _ => True) (.signal _ _) trivial ?_ (fun _ _ _ => trivial) (fun _ _ _ => trivial)
    (fun m' _ => hpop m') (fun _ _ _ => .signal _ _)
  intro text m' _ o m'' _
  match o.ending with
  | .status _ => trivial
  | .signal (.goto _) => trivial
  | .signal (.exit status true) => exact hpop (m''.withStatus status)
  | .signal (.exit _ false) => exact .signal _ _
  | .signal (.labelNotFound _) => exact .signal _ _
  | .signal (.recursionLimit _) => exact .signal _ _
  | .signal .interrupted => exact .signal _ _
  | .signal (.executionLimit _) => exact .signal _ _
  | .crashed _ => exact .crashed _ _

end

/-- Whatever task came to its end, its status is recorded. -/
theorem Engine.perform_recorded (e : Engine) (levels : Nat) (task : Task) (stdin : String) (m : Machine) :
    Ends (e.perform levels task stdin m) Recorded := by
  cases levels with
  | zero => exact .endless
  | succ levels =>
    cases task with
    | line text => exact runLine_recorded text
    | command c => exact runCommand_recorded c stdin m
    | called c => exact runSimple_recorded true c
    | script script start params => exact runScript_recorded script start params

theorem Engine.runTask_recorded (e : Engine) (task : Task) (stdin : String) (m : Machine) :
    Ends (e.runTask task stdin m) Recorded :=
  e.perform_recorded maxLevels task stdin m

/-! ## Where the status is read -/

/-- `IF ERRORLEVEL` compares with `status`, and `%ERRORLEVEL%` is its text while no variable of that name
is set. -/
structure State.Shows (s : State) (status : Status) : Prop where
  test : ∀ glob files ignoreCase level n,
    Numeral.parse32 (Text.trim (Expansion.fillLoopVars files s.cwd s.loops level)) = .ok (some n) →
      Test.holds glob files s ignoreCase (.errorLevel level) = .ok (decide (n ≤ status))
  reference : ∀ now, s.env.get? "ERRORLEVEL" = none →
    Expansion.expandReference? now s "ERRORLEVEL" = .ok (some (toString status))

theorem State.shows_status (s : State) : s.Shows s.status := by
  refine ⟨fun glob files ignoreCase level n h => ?_, fun now h => ?_⟩
  · unfold Test.holds
    dsimp only
    rw [h]
    rfl
  · have hcut : Text.cutAt ':' "ERRORLEVEL" = none := by decide
    have hupper : Text.upper "ERRORLEVEL" = "ERRORLEVEL" := by decide +kernel
    have hdynamic : Expansion.dynamicValue? now s "ERRORLEVEL" = some (toString s.status) := by
      unfold Expansion.dynamicValue?
      rw [hupper]
      rfl
    unfold Expansion.expandReference? Expansion.variableValue?
    rw [hcut, h]
    exact congrArg Except.ok hdynamic

/-! ## Requests -/

namespace Session

variable {s s' : Session} {request : Request} {r : Result}

/-- A batch file that cannot be read gives a result at once and leaves the machine alone. -/
theorem callBatch_missing {again : Again} {path : String} {args : List String} {stdin : String} {m : Machine}
    (h : m.host.files.readText? path = none) :
    callBatch again path args stdin m = some (.done (.failure Complaint.fileNotFound), m) := by
  simp only [callBatch, h]

/-- The request is for a batch file that cannot be read. -/
def Missing (s : Session) (request : Request) : Prop :=
  ∃ path args, request = .file path args ∧
    s.machine.host.files.readText? (Path.resolve s.machine.state.cwd path) = none

/-- Unless a file is missing, the run that a request starts is a task. -/
theorem run_recorded (h : ¬ s.Missing request) : Ends (s.run request) Recorded := by
  cases request with
  | line text => exact s.engine.runTask_recorded _ s.stdin s.fresh
  | script name source args => exact s.engine.runTask_recorded _ s.stdin s.fresh
  | file path args =>
    simp only [run, callBatch]
    split
    · rename_i hnone
      exact absurd ⟨path, args, rfl, hnone⟩ h
    · exact s.engine.runTask_recorded _ s.stdin s.fresh

theorem status_of_recorded (hserve : s.serve request = some (.ok (r, s'))) (h : Ends (s.run request) Recorded) :
    r.status = s'.machine.state.status := by
  obtain ⟨m, ⟨hdone, rfl⟩ | ⟨signal, out, err, hraised, rfl, rfl⟩⟩ := exists_run_of_serve hserve
  · exact (h _ m hdone r.status rfl).symm
  · rfl

theorem status_of_missing (hserve : s.serve request = some (.ok (r, s'))) (h : s.Missing request) :
    r.status = 1 ∧ s'.machine.state.status = s.machine.state.status := by
  obtain ⟨path, args, rfl, hnone⟩ := h
  have hrun : s.run (.file path args) = some (.done (.failure Complaint.fileNotFound), s.fresh) :=
    callBatch_missing hnone
  rw [serve_eq_finish, hrun] at hserve
  cases hserve
  exact ⟨rfl, rfl⟩

end Session

/-- **One exit status, but for a missing batch file.** Whatever task comes to its end, the status of its
result is the one that is recorded, which is the one that `IF ERRORLEVEL` and `%ERRORLEVEL%` read next. The
status that a session returns, also for what escaped from a line or script, is the recorded one unless a
batch file was asked for that cannot be read: then it is only if it was 1 already. -/
theorem Engine.status_recorded_unless_missing (e : Engine) (levels : Nat) :
    (∀ (task : Task) (stdin : String) (m m' : Machine) (r : Result),
      e.perform levels task stdin m = some (.done r, m') →
        r.status = m'.state.status ∧ m'.state.Shows r.status) ∧
    (∀ (s s' : Session) (request : Request) (r : Result), s.serve request = some (.ok (r, s')) →
      (r.status = s'.machine.state.status ↔ (s.Missing request → s.machine.state.status = 1))) := by
  refine ⟨fun task stdin m m' r h => ?_, fun s s' request r hserve => ?_⟩
  · have hstatus : m'.state.status = r.status := e.perform_recorded levels task stdin m _ m' h _ rfl
    exact ⟨hstatus.symm, hstatus ▸ m'.state.shows_status⟩
  · by_cases hmissing : s.Missing request
    · obtain ⟨hone, hold⟩ := Session.status_of_missing hserve hmissing
      rw [hone, hold]
      exact ⟨fun h _ => h.symm, fun h => (h hmissing).symm⟩
    · have hsame := Session.status_of_recorded hserve (Session.run_recorded hmissing)
      exact ⟨fun _ h => absurd h hmissing, fun _ => hsame⟩

/-- A line that leaves the interpreter in a session, and a loop without values. -/
theorem Engine.status_recorded_unless_missing_exit :
    (∃ r s, Session.bare.serve (.line "exit") = some (.ok (r, s)) ∧ r.status = s.machine.state.status) ∧
      ∃ r m', Engine.bare.perform 1 (.command (.loop ⟨'i', .items, [], ""⟩ (.simple .empty))) "" .inScript =
        some (.done r, m') ∧ r.status = m'.state.status := by
  have hline : (Session.bare.serve (.line "exit")).served?.isSome = true := by decide +kernel
  have hloop : (Engine.bare.perform 1 (.command (.loop ⟨'i', .items, [], ""⟩ (.simple .empty))) ""
      .inScript).map Prod.fst = some (.done ⟨"", "", 0⟩) := by decide +kernel
  obtain ⟨⟨r, s⟩, hs⟩ := Option.isSome_iff_exists.mp hline
  rw [Session.Answer.served?_eq_some_iff] at hs
  obtain ⟨htask, hsession⟩ := Engine.bare.status_recorded_unless_missing 1
  refine ⟨⟨r, s, hs, (hsession _ s _ r hs).mpr ?_⟩, ?_⟩
  · rintro ⟨path, args, heq, -⟩
    cases heq
  · obtain ⟨⟨o, m'⟩, hrun, rfl⟩ := Option.map_eq_some_iff.mp hloop
    exact ⟨_, m', hrun, (htask _ _ _ m' _ hrun).1⟩

/-- A batch file that is not there: the result has status 1, the session goes on with status 0. -/
theorem Session.status_of_missing_file :
    ∃ r s, Session.bare.execFile "missing.bat" [] = some (.ok (r, s)) ∧ r.status = 1 ∧
      s.machine.state.status = 0 := by
  have hboth : (Session.bare.execFile "missing.bat" []).served?.map
      (fun p => (p.1.status, p.2.machine.state.status)) = some (1, 0) := by decide +kernel
  obtain ⟨⟨r, s⟩, hrun, hstatus⟩ := Option.map_eq_some_iff.mp hboth
  obtain ⟨hone, hold⟩ := Prod.mk.inj hstatus
  exact ⟨r, s, Session.Answer.served?_eq_some_iff.mp hrun, hone, hold⟩

end BatchShell
