import BatchShell.Proofs.Arithmetic.Assignments
import BatchShell.Proofs.Engine.Ends

/-!
# What a command leaves of the state it ran in

The engine pushes and pops on three stacks: the scripts that run, the loops that are active and the scopes
of variables. `Kept s ending s'` says what is left of a state `s` when a line or a command that ran in it
has ended, whether with a result or with a signal:

* the active loops are the same;
* the scripts are the same up to shifts of the innermost one's parameters (`Shifted`), so that nothing but
  the loop over the lines of a script moves to another line;
* no scope is closed that was open when the innermost script started, and the frames below are the same;
* the phase is the same, unless an `EXIT` ended the interpreter.

A script leaves more (`Returned`): the whole stack of scripts, the echo flag, the number of open scopes and
every frame of variables but the innermost one are as they were.

* `Engine.perform_leaves` proves both, for every task.
-/
namespace BatchShell

open Environment

/-! ## Phases and lines -/

namespace State

variable (s : State) (phase : Phase)

@[simp] theorem enterPhase_env : (s.enterPhase phase).env = s.env := by
  unfold enterPhase; split <;> rfl

@[simp] theorem enterPhase_calls : (s.enterPhase phase).calls = s.calls := by
  unfold enterPhase; split <;> rfl

@[simp] theorem enterPhase_loops : (s.enterPhase phase).loops = s.loops := by
  unfold enterPhase; split <;> rfl

@[simp] theorem enterPhase_status : (s.enterPhase phase).status = s.status := by
  unfold enterPhase; split <;> rfl

variable (next : Nat)

@[simp] theorem goTo_env : (s.goTo next).env = s.env := by
  unfold goTo; split <;> rfl

@[simp] theorem goTo_loops : (s.goTo next).loops = s.loops := by
  unfold goTo; split <;> rfl

@[simp] theorem goTo_phase : (s.goTo next).phase = s.phase := by
  unfold goTo; split <;> rfl

@[simp] theorem scopeFloor_goTo : Builtin.scopeFloor (s.goTo next) = Builtin.scopeFloor s := by
  unfold goTo Builtin.scopeFloor
  split
  · rfl
  · rename_i frame outer hcalls
    rw [hcalls]; rfl

variable (script : Script) (start : Nat) (params : Params)

@[simp] theorem pushCall_env : (s.pushCall script start params).env = s.env := by
  unfold pushCall; split <;> simp

@[simp] theorem pushCall_loops : (s.pushCall script start params).loops = s.loops := by
  unfold pushCall; split <;> simp

@[simp] theorem scopeFloor_pushCall : Builtin.scopeFloor (s.pushCall script start params) = s.env.depth := rfl

/-- A phase other than the last one can be entered unless the interpreter has ended. -/
theorem enterPhase_eq_terminated {s : State} {phase : Phase} (h : phase ≠ .terminated) :
    (s.enterPhase phase).phase = .terminated ↔ s.phase = .terminated := by
  unfold enterPhase
  by_cases ht : s.phase = .terminated
  · simp [ht]
  · simp [ht, h]

end State

/-- The phase after something has ended, if it started in `phase`. -/
def Ending.phaseAfter (phase : Phase) : Ending → Phase
  | .signal (.exit _ false) => .terminated
  | _ => phase

/-- Going back to the phase of the start, from a phase `p` that was entered for a while. -/
theorem State.enterPhase_phaseAfter {s s' : State} {p : Phase} {ending : Ending}
    (hp : p = .terminated ↔ s.phase = .terminated) (h : s'.phase = ending.phaseAfter p) :
    (s'.enterPhase s.phase).phase = ending.phaseAfter s.phase := by
  by_cases hexit : ∃ status, ending = .signal (.exit status false)
  · obtain ⟨status, rfl⟩ := hexit
    have ht : s'.phase = .terminated := h
    simp [State.enterPhase, Ending.phaseAfter, ht]
  · have hsame : ∀ q, ending.phaseAfter q = q := by
      intro q
      unfold Ending.phaseAfter
      split
      · exact absurd ⟨_, rfl⟩ hexit
      · rfl
    rw [hsame] at h ⊢
    unfold State.enterPhase
    by_cases ht : s'.phase = .terminated
    · have := hp.mp (h.symm.trans ht)
      simp [ht, this]
    · simp [ht]

/-! ## What is left of a state -/

/-- Two stacks of scripts that differ at most by shifts of the innermost script's parameters. -/
inductive Shifted : List CallFrame → List CallFrame → Prop where
  | outside : Shifted [] []
  | inside (frame : CallFrame) (outer : List CallFrame) (starts : List Nat) :
    Shifted (frame :: outer) ({ frame with params := starts.foldl Params.shift frame.params } :: outer)

namespace Shifted

theorem refl (calls : List CallFrame) : Shifted calls calls := by
  cases calls with
  | nil => exact .outside
  | cons frame outer => exact .inside frame outer []

theorem trans {a b c : List CallFrame} (h : Shifted a b) (h' : Shifted b c) : Shifted a c := by
  cases h with
  | outside => exact h'
  | inside frame outer starts =>
    cases h' with
    | inside _ _ more =>
      have := Shifted.inside frame outer (starts ++ more)
      rwa [List.foldl_append] at this

/-- The innermost scripts were entered with the same scopes open. -/
theorem head?_scopeMarker {a b : List CallFrame} (h : Shifted a b) :
    b.head?.map (·.scopeMarker) = a.head?.map (·.scopeMarker) := by
  cases h <;> rfl

end Shifted

/-- What is left of the state `s` in which a line or a command ran. -/
structure Kept (s : State) (ending : Ending) (s' : State) : Prop where
  loops : s'.loops = s.loops
  calls : Shifted s.calls s'.calls
  scopes : Builtin.scopeFloor s ≤ s.env.depth → KeepsFloor (Builtin.scopeFloor s) s.env s'.env
  phase : s'.phase = ending.phaseAfter s.phase

/-- What is left of the state `s` in which a script was called. -/
structure Returned (s : State) (ending : Ending) (s' : State) : Prop where
  calls : s'.calls = s.calls
  loops : s'.loops = s.loops
  echo : s'.echo = s.echo
  env : SameBelow s.env s'.env
  phase : s'.phase = ending.phaseAfter s.phase

namespace Kept

variable {s s' s'' : State} {ending : Ending} {status : Status}

theorem scopeFloor_eq (h : Kept s ending s') : Builtin.scopeFloor s' = Builtin.scopeFloor s := by
  unfold Builtin.scopeFloor
  rw [h.calls.head?_scopeMarker]

/-- A change of the innermost frame of variables and of what the stacks do not hold. -/
theorem of_sameBelow (hloops : s'.loops = s.loops) (hcalls : s'.calls = s.calls)
    (henv : SameBelow s.env s'.env) (hphase : s'.phase = s.phase) : Kept s (.status status) s' :=
  ⟨hloops, hcalls ▸ .refl _, fun hle => .of_sameBelow henv hle, hphase⟩

theorem refl (s : State) (status : Status) : Kept s (.status status) s :=
  of_sameBelow rfl rfl (.refl _) rfl

/-- Breaking off where nothing had changed. -/
theorem crash (s : State) (why : Crash) : Kept s (.crashed why) s := ⟨rfl, .refl _, .refl, rfl⟩

/-- A signal that does not end the interpreter, raised where nothing had changed. -/
theorem of_signal {signal : Signal} (hphase : (Ending.signal signal).phaseAfter s.phase = s.phase) :
    Kept s (.signal signal) s :=
  ⟨rfl, .refl _, .refl, hphase.symm⟩

/-- Something that came to its end, and then something else. -/
theorem trans (h : Kept s (.status status) s') (h' : Kept s' ending s'') : Kept s ending s'' := by
  refine ⟨h'.loops.trans h.loops, h.calls.trans h'.calls, fun hle => ?_, ?_⟩
  · have hs := h.scopes hle
    have hs' := h'.scopes
    rw [h.scopeFloor_eq] at hs'
    exact hs.trans (hs' hs.le_depth)
  · rw [h'.phase, h.phase]; rfl

/-- The status that is recorded afterwards does not matter. -/
theorem withStatus (h : Kept s ending s') (status : Status) : Kept s ending { s' with status := status } :=
  ⟨h.loops, h.calls, h.scopes, h.phase⟩

/-- Neither does the count of commands before. -/
theorem of_count {m : Machine} (h : Kept m.count.state ending s') : Kept m.state ending s' :=
  ⟨h.loops, h.calls, h.scopes, h.phase⟩

/-- Endings that leave the same phase behind. -/
theorem congr_ending {other : Ending} (h : Kept s ending s')
    (heq : other.phaseAfter s.phase = ending.phaseAfter s.phase) : Kept s other s' :=
  ⟨h.loops, h.calls, h.scopes, h.phase.trans heq.symm⟩

/-! ## Loops -/

/-- Binding other values on both sides. -/
theorem bindLoop (h : Kept s ending s') (frame : LoopFrame) :
    Kept (s.bindLoop frame) ending (s'.bindLoop frame) := by
  refine ⟨?_, h.calls, h.scopes, h.phase⟩
  simp only [State.bindLoop, h.loops]

/-- Leaving a loop after its body, whatever the values were that it was bound to. -/
theorem popLoop {frame : LoopFrame} (h : Kept (s.pushLoop.bindLoop frame) ending s') :
    Kept s ending (s'.popLoop s.phase) := by
  have hcalls := h.calls
  have hscopes := h.scopes
  simp only [State.bindLoop, State.pushLoop, State.enterPhase_calls, State.enterPhase_env,
    Builtin.scopeFloor] at hcalls hscopes
  refine ⟨?_, ?_, ?_, ?_⟩
  · simp [State.popLoop, h.loops, State.bindLoop, State.pushLoop]
  · simpa [State.popLoop] using hcalls
  · simpa [State.popLoop, Builtin.scopeFloor] using hscopes
  · exact State.enterPhase_phaseAfter (State.enterPhase_eq_terminated (by decide)) h.phase

/-! ## Scripts -/

/-- Moving both sides to the same line. -/
theorem goTo (h : Kept s ending s') (next : Nat) : Kept (s.goTo next) ending (s'.goTo next) := by
  refine ⟨by simpa using h.loops, ?_, by simpa using h.scopes, by simpa using h.phase⟩
  have hcalls := h.calls
  unfold State.goTo
  generalize hs : s.calls = calls at hcalls
  generalize hs' : s'.calls = calls' at hcalls
  cases hcalls with
  | outside => simpa [hs, hs'] using Shifted.outside
  | inside frame outer starts => exact Shifted.inside { frame with next := next } outer starts

/-- Leaving a script after some of its lines, at whatever line it stood. -/
theorem popCall {script : Script} {start next : Nat} {params : Params}
    (h : Kept ((s.pushCall script start params).goTo next) ending s') :
    Returned s ending (s'.popCall s.phase) := by
  have hloops : s'.loops = s.loops := by simpa using h.loops
  have hscopes : KeepsFloor s.env.depth s.env s'.env := by simpa using h.scopes
  have hphase : s'.phase = ending.phaseAfter (s.pushCall script start params).phase := by
    simpa using h.phase
  have hp : (s.pushCall script start params).phase = .terminated ↔ s.phase = .terminated := by
    unfold State.pushCall
    by_cases hempty : s.calls.isEmpty
    · simp [hempty]
    · simpa [hempty] using State.enterPhase_eq_terminated (by decide)
  -- the frame on top is the one that was pushed, moved and shifted
  have hcalls : Shifted (⟨script, next, params, s.echo, s.env.depth⟩ :: s.calls) s'.calls := h.calls
  generalize hs' : s'.calls = calls' at hcalls
  cases hcalls with
  | inside _ _ starts =>
    simp only [State.popCall, hs']
    exact ⟨rfl, by simpa using hloops, rfl, hscopes.truncateScopes,
      State.enterPhase_phaseAfter hp hphase⟩

end Kept

namespace Returned

variable {s s' : State} {ending : Ending}

/-- A called script leaves what any command has to leave. -/
theorem kept (h : Returned s ending s') : Kept s ending s' :=
  ⟨h.loops, h.calls ▸ .refl _, fun hle => .of_sameBelow h.env hle, h.phase⟩

end Returned

/-! ## Internal commands -/

namespace Builtin

variable (s : State) (status : Status)

theorem kept_runEcho (raw : String) : Kept s (.status status) (runEcho s raw).2 := by
  unfold runEcho
  extract_lets message word
  split
  · exact .refl s status
  · split
    · exact .of_sameBelow rfl rfl (.refl _) rfl
    · split
      · exact .of_sameBelow rfl rfl (.refl _) rfl
      · exact .refl s status

/-- An expression that breaks off has assigned what stood before. -/
theorem kept_setArithmetic (expression : String) :
    Kept s (setArithmetic s expression).1.ending (setArithmetic s expression).2 := by
  unfold setArithmetic
  split
  · exact .refl s _
  · have henv := Arithmetic.evaluate_sameBelow expression s.env
    generalize Arithmetic.evaluate expression s.env = computed at henv
    obtain ⟨value, env⟩ := computed
    have hkept : Kept s (.status 0) { s with env := env } := .of_sameBelow rfl rfl henv rfl
    cases value with
    | ok n => exact hkept.congr_ending rfl
    | error stop => cases stop <;> exact hkept.congr_ending rfl

theorem kept_setPrompt (text stdin : String) : Kept s (.status status) (setPrompt s text stdin).2 := by
  unfold setPrompt
  split
  · exact .refl s status
  · split
    · exact .refl s status
    · exact .refl s status
    · exact .of_sameBelow rfl rfl (.set _ _ _) rfl

theorem kept_setVariable (name value : String) : Kept s (.status status) (setVariable s name value) := by
  refine .of_sameBelow rfl rfl ?_ rfl
  unfold setVariable
  split
  · exact .unset _ _
  · exact .set _ _ _

theorem kept_runSet (raw stdin : String) : Kept s (runSet s raw stdin).1.ending (runSet s raw stdin).2 := by
  unfold runSet
  extract_lets text plain body
  split
  · exact kept_setArithmetic s _
  · exact kept_setPrompt s _ _ stdin
  · split
    · exact .refl s _
    · split
      · exact .refl s _
      · split
        · exact .refl s _
        · exact kept_setVariable s _ _ _

theorem kept_runSetlocal : Kept s (.status status) (runSetlocal s).2 :=
  ⟨rfl, .refl _, .pushScope, rfl⟩

/-- A scope is closed only while more are open than when the script started. -/
theorem kept_runEndlocal : Kept s (.status status) (runEndlocal s).2 := by
  unfold runEndlocal
  split
  · rename_i env hpop
    split at hpop
    · cases hpop
    · rename_i hlt
      exact ⟨rfl, .refl _, fun _ => .popScope (Nat.lt_of_not_le hlt) hpop, rfl⟩
  · exact .refl s status

theorem kept_runCd (files : FileTree) (raw : String) :
    Kept s (runCd files s raw).1.ending (runCd files s raw).2 := by
  unfold runCd
  split
  · exact .crash s _
  · split
    · exact .refl s _
    · split
      · exact .of_sameBelow rfl rfl (.refl _) rfl
      · exact .refl s _

theorem kept_runPushd (files : FileTree) (raw : String) :
    Kept s (.status status) (runPushd files s raw).2 := by
  unfold runPushd
  extract_lets text
  split
  · exact .refl s status
  · split
    · exact .of_sameBelow rfl rfl (.refl _) rfl
    · exact .refl s status

theorem kept_runPopd : Kept s (.status status) (runPopd s).2 := by
  unfold runPopd
  split
  · exact .refl s status
  · exact .of_sameBelow rfl rfl (.refl _) rfl

theorem kept_runShift (args : List String) : Kept s (.status status) (runShift s args).2 := by
  unfold runShift
  split
  · rename_i start _
    unfold shiftParams
    split
    · exact .refl s status
    · rename_i frame outer hcalls
      exact ⟨rfl, hcalls ▸ .inside frame outer [start], .refl, rfl⟩
  · exact .refl s status

/-- `EXIT` ends the interpreter exactly when the signal it raises says so. -/
theorem kept_runExit (args : List String) : Kept s (runExit s args).1.ending (runExit s args).2 := by
  unfold runExit
  dsimp only
  generalize (args.head?.map (Text.sameIgnoringCase · "/B")).getD false = batchOnly
  cases batchOnly with
  | true => exact ⟨rfl, .refl _, .refl, rfl⟩
  | false => exact ⟨rfl, .refl _, .refl, rfl⟩

theorem kept_runTitle (raw : String) : Kept s (.status status) (runTitle s raw).2 :=
  .of_sameBelow rfl rfl (.refl _) rfl

theorem kept_runVerify (args : List String) : Kept s (.status status) (runVerify s args).2 := by
  unfold runVerify
  split
  · exact .refl s status
  · split
    · exact .of_sameBelow rfl rfl (.refl _) rfl
    · split
      · exact .of_sameBelow rfl rfl (.refl _) rfl
      · exact .refl s status
  · exact .refl s status

theorem kept_runDoskey (raw : String) : Kept s (.status status) (runDoskey s raw).2 := by
  unfold runDoskey
  extract_lets invalid
  split
  · exact .refl s status
  · exact .refl s status
  · split
    · exact .refl s status
    · extract_lets name
      split
      · exact .refl s status
      · exact .of_sameBelow rfl rfl (.refl _) rfl

end Builtin

/-! ## The engine -/

/-- What a task leaves: a script returns, everything else keeps what a command has to keep. -/
def Task.Leaves (task : Task) (m : Machine) (ending : Ending) (m' : Machine) : Prop :=
  match task with
  | .script _ _ _ => Returned m.state ending m'.state
  | _ => Kept m.state ending m'.state

/-- The tasks that come up on the way leave what they should. -/
def Again.Sound (again : Again) : Prop := ∀ task stdin m, Ends (again task stdin m) (task.Leaves m)

section

variable {e : Engine} {again : Again} {m : Machine} {stdin : String}

theorem callLabel_kept (h : again.Sound) (label : String) (args : List String) :
    Ends (callLabel again label args stdin m) fun ending m' => Kept m.state ending m'.state := by
  unfold callLabel
  split
  · exact .ended (.refl _ _)
  · split
    · exact .ended (.refl _ _)
    · exact (h _ stdin m).mono fun _ _ hret => hret.kept

theorem callBatch_kept (h : again.Sound) (path : String) (args : List String) :
    Ends (callBatch again path args stdin m) fun ending m' => Kept m.state ending m'.state := by
  unfold callBatch
  split
  · exact .ended (.refl _ _)
  · exact (h _ stdin m).mono fun _ _ hret => hret.kept

/-- The signal that ends the running script in turn does not end the interpreter. -/
theorem chainBatch_kept (h : again.Sound) (path : String) (args : List String) :
    Ends (chainBatch again path args stdin m) fun ending m' => Kept m.state ending m'.state := by
  refine (callBatch_kept h path args).map fun o m' hkept => ?_
  cases o with
  | done r => exact hkept.congr_ending rfl
  | raised signal out err => exact hkept
  | crashed why => exact hkept

theorem runCall_kept (h : again.Sound) (raw : String) :
    Ends (runCall again raw stdin m) fun ending m' => Kept m.state ending m'.state := by
  unfold runCall
  dsimp only
  split
  · exact .ended (.crash _ _)
  · rename_i line _
    -- the moments that pass change no state
    generalize hlater : m.pass (Text.trimStart raw).length = later
    have hstate : later.state = m.state := hlater ▸ rfl
    rw [← hstate]
    split
    · exact .ended (.refl _ _)
    · exact .ended (.refl _ _)
    · split
      · exact callLabel_kept h _ _
      · exact h (.called _) stdin later
    · exact h (.command _) stdin later

/-- An internal command that gives a result and changes the state. -/
theorem change_kept {r : Result × State} (h : ∀ status, Kept m.state (.status status) r.2) :
    Ends (some (.done r.1, m.withState r.2)) fun ending m' => Kept m.state ending m'.state :=
  .ended (h r.1.status)

/-- An internal command that changes the state, however it ends. -/
theorem leave_kept {r : Outcome × State} (h : Kept m.state r.1.ending r.2) :
    Ends (some (r.1, m.withState r.2)) fun ending m' => Kept m.state ending m'.state :=
  .ended h

/-- An internal command that only gives a result. -/
theorem plain_kept (r : Result) :
    Ends (some (.done r, m)) fun ending m' => Kept m.state ending m'.state :=
  .ended (.refl m.state r.status)

theorem runBuiltin_kept (h : again.Sound) (builtin : Builtin) (args : List String) (raw : String) :
    Ends (e.runBuiltin again builtin args raw stdin m) fun ending m' => Kept m.state ending m'.state := by
  cases builtin with
  | echo => exact change_kept (Builtin.kept_runEcho m.state · raw)
  | set => exact leave_kept (Builtin.kept_runSet m.state raw stdin)
  | setlocal => exact change_kept (Builtin.kept_runSetlocal m.state)
  | endlocal => exact change_kept (Builtin.kept_runEndlocal m.state)
  | cd => exact leave_kept (Builtin.kept_runCd m.state m.host.files raw)
  | pushd => exact change_kept (Builtin.kept_runPushd m.state · m.host.files raw)
  | popd => exact change_kept (Builtin.kept_runPopd m.state)
  | exit => exact leave_kept (Builtin.kept_runExit m.state args)
  | shift => exact change_kept (Builtin.kept_runShift m.state · args)
  | goto =>
    refine .ended ?_
    unfold Builtin.runGoto
    split
    · exact .refl _ _
    · split
      · exact .of_signal rfl
      · exact .refl _ _
  | call => exact runCall_kept h raw
  | rem => exact plain_kept _
  | pause => exact plain_kept _
  | type => exact plain_kept _
  | more => exact plain_kept _
  | sort => exact plain_kept _
  | find => exact plain_kept _
  | findstr => exact plain_kept _
  | cls => exact plain_kept _
  | ver => exact plain_kept _
  | title => exact change_kept (Builtin.kept_runTitle m.state · raw)
  | verify => exact change_kept (Builtin.kept_runVerify m.state · args)
  | doskey => exact change_kept (Builtin.kept_runDoskey m.state · raw)

theorem dispatch_kept (h : again.Sound) (called : Bool) (name : String) (args : List String) (raw : String) :
    Ends (e.dispatch again called name args raw stdin m) fun ending m' => Kept m.state ending m'.state := by
  unfold Engine.dispatch
  split
  · exact .ended (.refl _ _)
  · split
    · exact runBuiltin_kept h _ args raw
    · split
      · exact callBatch_kept h _ args
      · exact chainBatch_kept h _ args
    · exact .ended (.refl _ _)
    · exact .ended (.refl _ _)

theorem runSimple_kept (h : again.Sound) (called : Bool) (c : SimpleCommand) :
    Ends (e.runSimple again called c stdin m) fun ending m' => Kept m.state ending m'.state := by
  unfold Engine.runSimple
  dsimp only
  refine .redirected (fun _ => (Kept.refl m.state 1).withStatus 1) fun stdin files => ?_
  split
  · exact .ended fun _ => .refl m.state _
  · refine (dispatch_kept h called _ _ _).recorded (fun status m' hkept _ => ?_) fun _ m' _ hkept _ => ?_
    · exact hkept.withStatus status
    · exact hkept

/-- Counting a command changes nothing that has to be kept. -/
theorem counted_kept {body : Machine → Run}
    (h : Ends (body m.count.noteStart) fun ending m' => Kept m.count.state ending m'.state) :
    Ends (e.counted m body) fun ending m' => Kept m.state ending m'.state :=
  .counted (.of_signal rfl) (.of_count (.of_signal rfl)) (h.mono fun _ _ hkept => hkept.of_count)

theorem recorded_kept {run : Run} (h : Ends run fun ending m' => Kept m.state ending m'.state) :
    Ends (Run.recorded run) fun ending m' => Kept m.state ending m'.state :=
  h.recorded (fun status _ hkept => hkept.withStatus status) fun _ _ _ hkept => hkept

theorem runLoop_kept {head : LoopHead} {body : Machine → Run}
    (hbody : ∀ m, Ends (body m) fun ending m' => Kept m.state ending m'.state) :
    Ends (e.runLoop again head body m) fun ending m' => Kept m.state ending m'.state := by
  -- while the loop runs, everything is kept of the state in which it was entered, up to its bindings
  let entered (m' : Machine) : Prop :=
    ∃ frame status, Kept (m.state.pushLoop.bindLoop frame) (.status status) m'.state
  refine .runLoop entered (fun _ ending hsignal => ?_) (fun _ => ⟨[], 0, .refl _ _⟩) ?_ ?_
  · cases ending with
    | status status => exact .refl _ _
    | signal s => exact absurd rfl (hsignal s)
    | crashed why => exact .crash _ _
  · rintro m' frame ⟨old, status, hkept⟩
    have hbound : Kept (m.state.pushLoop.bindLoop frame) (.status status) (m'.state.bindLoop frame) :=
      hkept.bindLoop frame
    refine (hbody _).mono fun ending m'' hrun => ?_
    have hafter := hbound.trans hrun
    cases ending with
    | status status => exact ⟨frame, status, hafter⟩
    | signal s => exact hafter.popLoop
    | crashed why => exact hafter.popLoop
  · rintro status m' ⟨frame, before, hkept⟩
    have hsame : Kept (m.state.pushLoop.bindLoop frame) (.status status) m'.state := hkept.congr_ending rfl
    exact hsame.popLoop

theorem runCommand_kept (h : again.Sound) (c : Command) : ∀ (stdin : String) (m : Machine),
    Ends (e.runCommand again c stdin m) fun ending m' => Kept m.state ending m'.state := by
  induction c with
  | simple c =>
    intro stdin m
    exact counted_kept (runSimple_kept h false c)
  | block body rs ih =>
    intro stdin m
    refine counted_kept (recorded_kept (.redirected (fun files => ?_) fun stdin files => ?_))
    · exact (Kept.refl m.count.state 1).withStatus 1
    · exact (ih stdin _).mono fun _ _ hkept _ => hkept
  | ifThen c body ih =>
    intro stdin m
    refine counted_kept ?_
    split
    · exact .ended (.crash _ _)
    · exact recorded_kept (ih stdin _)
    · exact .ended (.refl _ _)
  | ifElse c body other ih ih' =>
    intro stdin m
    refine counted_kept ?_
    split
    · exact .ended (.crash _ _)
    · exact recorded_kept (ih stdin _)
    · exact recorded_kept (ih' stdin _)
  | loop head body ih =>
    intro stdin m
    exact counted_kept (recorded_kept (runLoop_kept (ih stdin)))
  | pipe left right _ _ =>
    intro stdin m
    exact .runPipeline fun _ status => (Kept.refl m.state status).withStatus status
  | both left right ih ih' =>
    intro stdin m
    refine (ih stdin m).andThen (fun _ _ _ hkept => hkept) fun r m' hkept => ?_
    exact (ih' stdin m').mono fun _ _ hnext => hkept.trans hnext
  | andThen left right ih ih' =>
    intro stdin m
    refine (ih stdin m).andThen (fun _ _ _ hkept => hkept) fun r m' hkept => ?_
    split
    · exact (ih' stdin m').mono fun _ _ hnext => hkept.trans hnext
    · exact .ended hkept
  | orElse left right ih ih' =>
    intro stdin m
    refine (ih stdin m).andThen (fun _ _ _ hkept => hkept) fun r m' hkept => ?_
    split
    · exact .ended hkept
    · exact (ih' stdin m').mono fun _ _ hnext => hkept.trans hnext

theorem runLine_kept (h : again.Sound) (line : String) :
    Ends (e.runLine again line stdin m) fun ending m' => Kept m.state ending m'.state := by
  unfold Engine.runLine
  dsimp only
  split
  · exact .ended (.crash _ _)
  · generalize hlater : m.pass line.utf8ByteSize = later
    have hstate : later.state = m.state := hlater ▸ rfl
    rw [← hstate]
    split
    · exact .ended (.refl _ _)
    · exact .ended (.refl _ _)
    · exact runCommand_kept h _ stdin later

theorem runScript_returned (h : again.Sound) (script : Script) (start : Nat) (params : Params) :
    Ends (e.runScript again script start params stdin m) fun ending m' =>
      Returned m.state ending m'.state := by
  -- while the script runs, everything is kept of the state in which it was entered, up to its line
  let running (m' : Machine) : Prop :=
    ∃ next status, Kept ((m.state.pushCall script start params).goTo next) (.status status) m'.state
  have hleft : ∀ m' ending, running m' → (∀ phase, ending.phaseAfter phase = phase) →
      Returned m.state ending (m'.state.popCall m.state.phase) := by
    rintro m' ending ⟨next, status, hkept⟩ hphase
    have hsame : Kept ((m.state.pushCall script start params).goTo next) ending m'.state :=
      hkept.congr_ending (hphase _)
    exact hsame.popCall
  refine .runScript running ⟨rfl, rfl, rfl, .refl _, rfl⟩ ⟨start, 0, .refl _ _⟩ ?_ ?_ (fun _ _ h => h) ?_ ?_
  · rintro text m' ⟨next, status, hkept⟩
    refine (h (.line text) stdin m').mono fun ending m'' hrun => ?_
    have hafter : Kept ((m.state.pushCall script start params).goTo next) ending m''.state := hkept.trans hrun
    match ending, hafter with
    | .status st, hafter => exact ⟨next, st, hafter⟩
    | .signal (.goto _), hafter => exact ⟨next, 0, hafter.congr_ending rfl⟩
    | .signal (.exit st true), hafter =>
      exact hleft _ _ ⟨next, st, (hafter.withStatus st).congr_ending rfl⟩ fun _ => rfl
    | .signal (.exit _ false), hafter => exact hafter.popCall
    | .signal (.labelNotFound _), hafter => exact hafter.popCall
    | .signal (.recursionLimit _), hafter => exact hafter.popCall
    | .signal .interrupted, hafter => exact hafter.popCall
    | .signal (.executionLimit _), hafter => exact hafter.popCall
    | .crashed _, hafter => exact hafter.popCall
  · rintro m' next ⟨old, status, hkept⟩
    exact ⟨next, status, hkept.goTo next⟩
  · exact fun m' hrun => hleft m' _ hrun fun _ => rfl
  · exact fun label m' hrun => hleft m' _ hrun fun _ => rfl

end

/-- Every task, run to whatever end, leaves what it should of the state it started in. -/
theorem Engine.perform_leaves (e : Engine) (levels : Nat) : Again.Sound (e.perform levels) :=
  Ends.perform (fun _ h text _ _ => runLine_kept h text) (fun _ h c stdin m => runCommand_kept h c stdin m)
    (fun _ h c _ _ => runSimple_kept h true c)
    (fun _ h script start params _ _ => runScript_returned h script start params) levels

/-- So a script, too, leaves what a command leaves. -/
theorem Task.Leaves.kept {task : Task} {m m' : Machine} {ending : Ending} (h : task.Leaves m ending m') :
    Kept m.state ending m'.state := by
  cases task with
  | script script start params => exact Returned.kept h
  | _ => exact h

/-! ## Calling a script -/

theorem Ending.phaseAfter_eq (ending : Ending) (phase : Phase) :
    ending.phaseAfter phase = phase ∨ ending.phaseAfter phase = .terminated := by
  unfold Ending.phaseAfter
  split
  · exact .inr rfl
  · exact .inl rfl

/-- **A script is invisible to its caller except through the innermost scope.** Whatever a script or
subroutine does and however it ends, in a state of any shape: the scripts that run stand at the same lines
with the same parameters, echoing is as it was, as many scopes are open, the frames of variables below the
innermost one and the active loops are the same, and the phase is the same unless the interpreter ended.
What is not named here (the working directory, the directories to return to, the status, the count of
commands, the title, the settings and the macros) is all that may differ besides the innermost frame. -/
theorem Engine.script_invisible_to_caller (e : Engine) (levels : Nat) (script : Script) (start : Nat)
    (params : Params) (stdin : String) (m m' : Machine) (o : Outcome)
    (h : e.perform levels (.script script start params) stdin m = some (o, m')) :
    m'.state.calls = m.state.calls ∧ m'.state.echo = m.state.echo ∧
      m'.state.env.depth = m.state.env.depth ∧ m'.state.env.frames.tail = m.state.env.frames.tail ∧
      m'.state.loops = m.state.loops ∧
      (m'.state.phase = m.state.phase ∨ m'.state.phase = .terminated) := by
  have hret : Returned m.state o.ending m'.state := e.perform_leaves levels _ stdin m o m' h
  refine ⟨hret.calls, hret.echo, hret.env.depth, hret.env.below, hret.loops, ?_⟩
  rw [hret.phase]
  exact o.ending.phaseAfter_eq m.state.phase

/-- Nothing matches anything. -/
def Matching.never : Matching := ⟨fun _ _ _ => [], fun _ _ _ => false, fun _ _ => none⟩

/-- An engine on which programs do nothing. -/
def Engine.bare : Engine := ⟨.standard, fun _ _ files => ⟨[], [], .exited 0, false, files⟩, .never⟩

/-- A machine without files that is inside a script, with a scope open since before the script. -/
def Machine.inScript : Machine :=
  ⟨{ State.initial Environment.empty.pushScope "/" with
      calls := [⟨.load "t.bat" "call :sub b", 1, .ofCall "t.bat" ["a"], true, 1⟩] },
    ⟨.empty, fun _ => .epoch, false, [], 0⟩⟩

/-- A subroutine that opens a scope, shifts its parameters and leaves the interpreter. -/
theorem Engine.script_invisible_to_caller_exit :
    ∃ o m', Engine.bare.perform 4 (.script (.load "t.bat" "setlocal\nshift\nexit") 0
        (.ofCall ":sub" ["b"])) "" .inScript = some (o, m') ∧
      m'.state.calls = Machine.inScript.state.calls ∧ m'.state.env.depth = 1 := by
  have hsome : (Engine.bare.perform 4 (.script (.load "t.bat" "setlocal\nshift\nexit") 0
      (.ofCall ":sub" ["b"])) "" .inScript).isSome = true := by decide +kernel
  obtain ⟨⟨o, m'⟩, hrun⟩ := Option.isSome_iff_exists.mp hsome
  obtain ⟨hcalls, -, hdepth, -⟩ := Engine.script_invisible_to_caller _ _ _ _ _ _ _ _ _ hrun
  exact ⟨o, m', hrun, hcalls, hdepth⟩

end BatchShell
