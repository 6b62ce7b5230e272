import BatchShell.Proofs.Engine.Termination
import BatchShell.Proofs.Session.Stacks

/-!
# What the limit on commands covers

Two things count the commands of a request. The state counts those that it lets start, up to the limit
(`Engine.spent`); the host counts everything that starts (`Host.started`). `Engine.Accounts` compares the two: each
command that was paid for has started, and nothing else has unless something ran aside.

A stage of a pipeline and the command of a loop set run aside, on a copy of the state. What they spend is spent from
the copy, which is thrown away, and a program that is a stage is not paid for at all. So the limit bounds what a
request starts unless the request comes to a pipeline or to such a loop (`Session.started_beyond_limit`), and there
it does not (`Session.pipeline_beyond_limit`).

* `runCommand_accounts`, `runScript_accounts`: what the constructs of one level keep, given what the jobs they ask
  for do.
* `Inquiry.congr`: a level looks at the answers to the jobs it comes to and at no others.
* `Engine.perform_accounts`: the accounts of a whole run.
-/
namespace BatchShell

/-! ## Accounts -/

/-- How many commands have been paid for. One that is refused costs nothing. -/
def Engine.spent (e : Engine) (m : Machine) : Nat := min m.state.commandCount e.limits.commands

/-- From `m` to `m'`, what was paid for has started, and nothing else has unless something ran aside. -/
structure Engine.Accounts (e : Engine) (aside : Prop) (m m' : Machine) : Prop where
  grows : e.spent m ≤ e.spent m'
  paid : m.host.started + e.spent m' ≤ m'.host.started + e.spent m
  owed : ¬ aside → m'.host.started + e.spent m ≤ m.host.started + e.spent m'

namespace Engine.Accounts

variable {e : Engine} {aside : Prop} {m m' m'' : Machine}

/-- Neither of the two counts moved. -/
theorem of_same (hcount : m'.state.commandCount = m.state.commandCount) (hstarted : m'.host.started = m.host.started) :
    e.Accounts aside m m' := by
  have hspent : e.spent m' = e.spent m := congrArg (min · e.limits.commands) hcount
  exact ⟨by omega, by omega, fun _ => by omega⟩

theorem refl (e : Engine) (aside : Prop) (m : Machine) : e.Accounts aside m m := of_same rfl rfl

theorem trans (h : e.Accounts aside m m') (h' : e.Accounts aside m' m'') : e.Accounts aside m m'' := by
  obtain ⟨hgrows, hpaid, howed⟩ := h
  obtain ⟨hgrows', hpaid', howed'⟩ := h'
  refine ⟨by omega, by omega, fun hnone => ?_⟩
  have := howed hnone
  have := howed' hnone
  omega

/-- Something ran aside: what it started stays, and nothing was paid for. -/
theorem of_aside (haside : aside) (hcount : m'.state.commandCount = m.state.commandCount)
    (hstarted : m.host.started ≤ m'.host.started) : e.Accounts aside m m' := by
  have hspent : e.spent m' = e.spent m := congrArg (min · e.limits.commands) hcount
  exact ⟨by omega, by omega, fun hnone => absurd haside hnone⟩

theorem started_le (h : e.Accounts aside m m') : m.host.started ≤ m'.host.started := by
  have := h.grows
  have := h.paid
  omega

end Engine.Accounts

/-- A run that keeps the accounts of the machine it started from. -/
abbrev Engine.Settles (e : Engine) (aside : Prop) (m : Machine) (run : Run) : Prop :=
  Ends run fun _ m' => e.Accounts aside m m'

/-- Is there a pipeline in it? -/
def Command.hasPipe : Command → Bool
  | .simple _ => false
  | .block body _ | .ifThen _ body | .loop _ body => body.hasPipe
  | .pipe _ _ => true
  | .ifElse _ left right | .both left right | .andThen left right | .orElse left right =>
    left.hasPipe || right.hasPipe

section

variable {e : Engine} {aside : Prop} {again : Again} {m : Machine} {stdin : String}

/-! ## What surrounds a command -/

/-- A refused command is not paid for; any other is, and starts. -/
theorem counted_accounts {body : Machine → Run} (h : e.Settles aside m.count.noteStart (body m.count.noteStart)) :
    e.Settles aside m (e.counted m body) := by
  unfold Engine.counted
  split
  · exact .ended (.refl e aside m)
  · have hcount : m.count.state.commandCount = m.state.commandCount + 1 := rfl
    split
    · rename_i hlimit
      have hspent : e.spent m.count = e.spent m := by
        simp only [Engine.spent, hcount] at hlimit ⊢
        omega
      have hstarted : m.count.host.started = m.host.started := rfl
      exact .ended ⟨by omega, by omega, fun _ => by omega⟩
    · rename_i hlimit
      have hspent : e.spent m.count.noteStart = e.spent m + 1 := by
        change min (m.state.commandCount + 1) e.limits.commands = min m.state.commandCount e.limits.commands + 1
        omega
      have hstarted : m.count.noteStart.host.started = m.host.started + 1 := rfl
      have hstart : e.Accounts aside m m.count.noteStart := ⟨by omega, by omega, fun _ => by omega⟩
      exact h.mono fun _ _ hbody => hstart.trans hbody

theorem recorded_accounts {run : Run} (h : e.Settles aside m run) : e.Settles aside m (Run.recorded run) :=
  h.recorded (fun _ _ h' => h'.trans (.of_same rfl rfl)) fun _ _ _ h' => h'

theorem redirected_accounts {rs : List Redirection} {body : String → Machine → Run}
    (h : ∀ stdin files, e.Settles aside (m.withFiles files) (body stdin (m.withFiles files))) :
    e.Settles aside m (redirected rs stdin m body) := by
  refine .redirected (fun files => .of_same rfl rfl) fun stdin files => ?_
  refine (h stdin files).mono fun _ m' h' files' => ?_
  have hopen : e.Accounts aside m (m.withFiles files) := .of_same rfl rfl
  have hclose : e.Accounts aside m' (m'.withFiles files') := .of_same rfl rfl
  exact (hopen.trans h').trans hclose

theorem andThen_accounts {first : Run} {next : Result → Machine → Run} (h : e.Settles aside m first)
    (hnext : ∀ r m', e.Settles aside m' (next r m')) : e.Settles aside m (Run.andThen first next) :=
  h.andThen (fun _ _ _ h' => h') fun r m' h' => (hnext r m').mono fun _ _ h'' => h'.trans h''

/-! ## Simple commands -/

section

variable (hagain : ∀ task stdin m, e.Settles aside m (again task stdin m))
include hagain

theorem callLabel_accounts (label : String) (args : List String) :
    e.Settles aside m (callLabel again label args stdin m) := by
  unfold callLabel
  split
  · exact .ended (.refl e aside m)
  · split
    · exact .ended (.refl e aside m)
    · exact hagain _ stdin m

theorem callBatch_accounts (path : String) (args : List String) :
    e.Settles aside m (callBatch again path args stdin m) := by
  unfold callBatch
  split
  · exact .ended (.refl e aside m)
  · exact hagain _ stdin m

theorem chainBatch_accounts (path : String) (args : List String) :
    e.Settles aside m (chainBatch again path args stdin m) := by
  refine (callBatch_accounts hagain path args).map fun o m' h => ?_
  cases o <;> exact h

theorem runCall_accounts (raw : String) : e.Settles aside m (runCall again raw stdin m) := by
  have hpass (length : Nat) {run : Run} (h : e.Settles aside (m.pass length) run) : e.Settles aside m run := by
    have hpassed : e.Accounts aside m (m.pass length) := .of_same rfl rfl
    exact h.mono fun _ _ h' => hpassed.trans h'
  unfold runCall
  dsimp only
  split
  · exact .ended (.refl e aside m)
  · refine hpass (Text.trimStart raw).length ?_
    split
    · exact .ended (.refl e aside _)
    · exact .ended (.refl e aside _)
    · split
      · exact callLabel_accounts hagain _ _
      · exact hagain _ stdin _
    · exact hagain _ stdin _

theorem runBuiltin_accounts (builtin : Builtin) (args : List String) (raw : String) :
    e.Settles aside m (e.runBuiltin again builtin args raw stdin m) := by
  by_cases hcall : builtin = .call
  · subst hcall
    exact runCall_accounts hagain raw
  · intro o m' h
    obtain ⟨o', m'', halone, hcount, hhost⟩ := runBuiltin_alone e hcall args raw stdin m
    cases (halone again).symm.trans h
    exact .of_same hcount (congrArg Host.started hhost)

theorem dispatch_accounts (called : Bool) (name : String) (args : List String) (raw : String) :
    e.Settles aside m (e.dispatch again called name args raw stdin m) := by
  unfold Engine.dispatch
  split
  · exact .ended (.refl e aside m)
  · split
    · exact runBuiltin_accounts hagain _ args raw
    · split
      · exact callBatch_accounts hagain _ args
      · exact chainBatch_accounts hagain _ args
    · exact .ended (.of_same rfl rfl)
    · exact .ended (.refl e aside m)

theorem runSimple_accounts (called : Bool) (c : SimpleCommand) :
    e.Settles aside m (e.runSimple again called c stdin m) := by
  unfold Engine.runSimple
  dsimp only
  refine redirected_accounts fun stdin files => ?_
  split
  · exact .ended (.refl e aside _)
  · exact recorded_accounts (dispatch_accounts hagain called _ _ _)

/-! ## Pipelines and loops -/

theorem runStage_started (c : Command) {stdin : Bytes} {r : StageResult} {host : Host}
    (h : e.runStage again c stdin m = some (r, host)) : m.host.started ≤ host.started := by
  unfold Engine.runStage at h
  split at h
  · cases h
    exact Nat.le_succ m.host.started
  · obtain ⟨⟨o, m'⟩, hrun, hfeq⟩ := Option.map_eq_some_iff.mp h
    cases hfeq
    exact (hagain _ _ m o m' hrun).started_le

/-- Stages only add to what was started. -/
theorem runStages_started (base : State) (stages : List Command) : ∀ (before r : StageResult) (host host' : Host),
    e.runStages again base before host stages = some (r, host') → host.started ≤ host'.started := by
  induction stages with
  | nil =>
    intro before r host host' h
    cases h
    exact Nat.le_refl _
  | cons c stages ih =>
    intro before r host host' h
    unfold Engine.runStages at h
    split at h
    · cases h
    · rename_i r' host'' hstage
      exact Nat.le_trans (runStage_started hagain c hstage) (ih _ r host'' host' h)

theorem runPipeline_accounts (haside : aside) (stages : List Command) :
    e.Settles aside m (e.runPipeline again stages stdin m) := by
  intro o m' h
  obtain ⟨⟨r, host⟩, hstages, hfeq⟩ := Option.map_eq_some_iff.mp h
  cases hfeq
  exact .of_aside haside rfl (runStages_started hagain m.state.child stages _ r m.host host hstages)

variable (hline : ¬ aside → ∀ text stdin m, again (.line text) stdin m = none)
include hline

/-- Only a command that gives the lines of a loop runs aside. -/
theorem loopValues_accounts (head : LoopHead) {p : Production} {m' : Machine}
    (h : e.loopValues again head m = some (p, m')) : e.Accounts aside m m' := by
  unfold Engine.loopValues at h
  cases hkind : head.kind with
  | lines options =>
    simp only [hkind, Engine.lineValues] at h
    split at h
    · cases h
      exact .refl e aside m
    · cases h
      exact .refl e aside m
    · split at h
      · obtain ⟨⟨o, child⟩, hrun, hfeq⟩ := Option.map_eq_some_iff.mp h
        cases hfeq
        by_cases haside : aside
        · exact .of_aside haside rfl (hagain _ _ _ o child hrun).started_le
        · rw [hline haside] at hrun
          cases hrun
      · cases h
        exact .refl e aside m
      · split at h <;> cases h <;> exact .refl e aside m
  | range =>
    simp only [hkind] at h
    split at h <;> cases h <;> exact .refl e aside m
  | _ =>
    simp only [hkind] at h
    cases h
    exact .refl e aside m

theorem runLoop_accounts (head : LoopHead) {body : Machine → Run} (hbody : ∀ m', e.Settles aside m' (body m')) :
    e.Settles aside m (e.runLoop again head body m) := by
  unfold Engine.runLoop
  split
  · exact .endless
  · rename_i heq
    exact .ended (loopValues_accounts hagain hline head heq)
  · rename_i values complaints m' heq
    have hvalues := loopValues_accounts hagain hline head heq
    have henter : e.Accounts aside m (m'.withState m'.state.pushLoop) :=
      hvalues.trans (.of_same (State.pushLoop_commandCount m'.state) rfl)
    have hrun : Ends (iterate e.limits.iterations head.letter body e.limits.iterations values
        ⟨"", complaints, m'.state.status⟩ (m'.withState m'.state.pushLoop)) fun _ m'' => e.Accounts aside m m'' := by
      refine .iterate (e.Accounts aside m) (fun m'' frame h => ?_) (fun _ _ h => h) _ _ _ _ henter
      have hbind : e.Accounts aside m'' (m''.withState (m''.state.bindLoop frame)) := .of_same rfl rfl
      refine (hbody _).mono fun ending m₃ h' => ?_
      have hall := (h.trans hbind).trans h'
      cases ending <;> exact hall
    exact hrun.map fun o m'' h => h.trans (.of_same (State.popLoop_commandCount m''.state _) rfl)

/-! ## Commands, lines and scripts -/

/-- By induction on the command: what it starts itself it pays for, and only a pipeline or a loop goes aside. -/
theorem runCommand_accounts (c : Command) : (c.hasPipe = true → aside) → ∀ (stdin : String) (m : Machine),
    e.Settles aside m (e.runCommand again c stdin m) := by
  induction c with
  | simple c =>
    intro _ stdin m
    exact counted_accounts (runSimple_accounts hagain false c)
  | block body rs ih =>
    intro hpipe stdin m
    refine counted_accounts (recorded_accounts (redirected_accounts fun stdin files => ?_))
    exact ih hpipe stdin _
  | ifThen c body ih =>
    intro hpipe stdin m
    refine counted_accounts ?_
    split
    · exact .ended (.refl e aside _)
    · exact recorded_accounts (ih hpipe stdin _)
    · exact .ended (.refl e aside _)
  | ifElse c body other ih ih' =>
    intro hpipe stdin m
    simp only [Command.hasPipe, Bool.or_eq_true] at hpipe
    refine counted_accounts ?_
    split
    · exact .ended (.refl e aside _)
    · exact recorded_accounts (ih (fun h => hpipe (.inl h)) stdin _)
    · exact recorded_accounts (ih' (fun h => hpipe (.inr h)) stdin _)
  | loop head body ih =>
    intro hpipe stdin m
    exact counted_accounts (recorded_accounts (runLoop_accounts hagain hline head fun m' => ih hpipe stdin m'))
  | pipe left right _ _ =>
    intro hpipe stdin m
    exact runPipeline_accounts hagain (hpipe rfl) _
  | both left right ih ih' =>
    intro hpipe stdin m
    simp only [Command.hasPipe, Bool.or_eq_true] at hpipe
    exact andThen_accounts (ih (fun h => hpipe (.inl h)) stdin m) fun _ m' => ih' (fun h => hpipe (.inr h)) stdin m'
  | andThen left right ih ih' =>
    intro hpipe stdin m
    simp only [Command.hasPipe, Bool.or_eq_true] at hpipe
    refine andThen_accounts (ih (fun h => hpipe (.inl h)) stdin m) fun r m' => ?_
    split
    · exact ih' (fun h => hpipe (.inr h)) stdin m'
    · exact .ended (.refl e aside m')
  | orElse left right ih ih' =>
    intro hpipe stdin m
    simp only [Command.hasPipe, Bool.or_eq_true] at hpipe
    refine andThen_accounts (ih (fun h => hpipe (.inl h)) stdin m) fun r m' => ?_
    split
    · exact .ended (.refl e aside m')
    · exact ih' (fun h => hpipe (.inr h)) stdin m'

omit hline in
/-- The lines of a script are paid for by its caller. -/
theorem runScript_accounts (script : Script) (start : Nat) (params : Params) :
    e.Settles aside m (e.runScript again script start params stdin m) := by
  have hpop (m' : Machine) (h : e.Accounts aside m m') :
      e.Accounts aside m (m'.withState (m'.state.popCall m.state.phase)) :=
    h.trans (.of_same (State.popCall_commandCount m'.state _) rfl)
  refine .runScript (e.Accounts aside m) (.refl e aside m)
    (.of_same (State.pushCall_commandCount m.state script start params) rfl) ?_
    (fun m' next h => h.trans (.of_same (State.goTo_commandCount m'.state next) rfl))
    (fun _ _ h => h.trans (.of_same rfl rfl)) (fun m' h => hpop m' h) (fun _ m' h => hpop m' h)
  intro text m' h
  refine (hagain (.line text) stdin m').mono fun ending m'' hrun => ?_
  have hall := h.trans hrun
  match ending with
  | .status _ => exact hall
  | .signal (.goto _) => exact hall
  | .signal (.exit status true) => exact hpop (m''.withStatus status) (hall.trans (.of_same rfl rfl))
  | .signal (.exit _ false) => exact hpop m'' hall
  | .signal (.labelNotFound _) => exact hpop m'' hall
  | .signal (.recursionLimit _) => exact hpop m'' hall
  | .signal .interrupted => exact hpop m'' hall
  | .signal (.executionLimit _) => exact hpop m'' hall
  | .crashed _ => exact hpop m'' hall

end

end

/-! ## What a run comes to -/

/-- The command that a job runs itself. -/
def Job.command? (j : Job) : Option Command :=
  match j.task with
  | .command c => some c
  | .line text => j.machine.reads? text
  | _ => none

/-- Is it a script or a subroutine? -/
def Task.isScript : Task → Bool
  | .script _ _ _ => true
  | _ => false

/-- The job runs something aside: there is a pipeline in its command, or it asks for a line and is no script, so that
the line is the command of a loop set. -/
def Engine.GoesAside (e : Engine) (j : Job) : Prop :=
  (∃ c, j.command? = some c ∧ c.hasPipe = true) ∨
    j.task.isScript = false ∧ ∃ text stdin m, e.Asks j ⟨.line text, stdin, m⟩

theorem Engine.level_accounts {e : Engine} {aside : Prop} {again : Again} {j : Job}
    (hagain : ∀ task stdin m, e.Settles aside m (again task stdin m))
    (hline : ¬ aside → j.task.isScript = false → ∀ text stdin m, again (.line text) stdin m = none)
    (hpipe : ∀ c, j.command? = some c → c.hasPipe = true → aside) :
    e.Settles aside j.machine (e.level again j) := by
  obtain ⟨task, stdin, m⟩ := j
  cases task with
  | command c => exact runCommand_accounts hagain (fun h => hline h rfl) c (hpipe c rfl) stdin m
  | called c => exact runSimple_accounts hagain true c
  | script script start params => exact runScript_accounts hagain script start params
  | line text =>
    simp only [Engine.level, Engine.runLine]
    split
    · exact .ended (.refl e aside m)
    · rename_i hexpand
      have hpass : e.Accounts aside m (m.pass text.utf8ByteSize) := .of_same rfl rfl
      split
      · exact .ended hpass
      · exact .ended hpass
      · rename_i c hc
        have hreads : m.reads? text = some c := by simp only [Machine.reads?, hexpand, hc]
        have hrun := runCommand_accounts (m := m.pass text.utf8ByteSize) hagain (fun h => hline h rfl) c
          (hpipe c hreads) stdin
        exact hrun.mono fun _ _ h => hpass.trans h

/-- An inquiry looks at the answers to the jobs that it comes to, and at no others. -/
theorem Inquiry.congr {α : Type} {sound answer : Job → Outcome × Machine → Prop} {allowed : Job → Prop}
    {post : α → Prop} {f : Again → Option α} (h : Inquiry sound allowed post f) {again again' : Again}
    (hsound : again.Obeys sound) (hanswer : again.Obeys answer)
    (hsame : ∀ j, ComesTo answer f j → again'.run j = again.run j) : f again' = f again := by
  induction h with
  | result a _ => rfl
  | @ask f j k hfirst _ _ ih =>
    rw [hfirst again, hfirst again', hsame j (.now hfirst)]
    cases hr : again.run j with
    | none => rfl
    | some r => exact ih r (hsound j r hr) fun i hi => hsame i (.later hfirst (hanswer j r hr) hi)

/-- The accounts of a whole run, by induction on its levels. At each level the jobs that the run does not come to
are left unanswered, so that what is known of those it comes to is known of every answer. -/
theorem Engine.perform_accounts (e : Engine) {aside : Prop} (levels : Nat) : ∀ j : Job,
    (∀ i, Relation.ReflTransGen e.Asks j i → e.GoesAside i → aside) →
      e.Settles aside j.machine (Again.run (e.perform levels) j) := by
  classical
  induction levels with
  | zero =>
    intro j _
    exact .endless
  | succ levels ih =>
    intro j hreach
    let asked : Again := fun task stdin m =>
      if e.Asks j ⟨task, stdin, m⟩ then e.perform levels task stdin m else none
    have hsame : ∀ i, e.Asks j i → asked.run i = Again.run (e.perform levels) i := fun i hi => if_pos hi
    have hlevel : e.level asked j = e.level (e.perform levels) j :=
      (e.level_inquiry j).congr (e.perform_answers levels) (fun i r hr => ⟨levels, hr⟩) hsame
    rw [e.run_perform_succ, ← hlevel]
    refine Engine.level_accounts (fun task stdin m => ?_) (fun haside hscript text stdin m => ?_)
      fun c hc hpipe => hreach j .refl (.inl ⟨c, hc, hpipe⟩)
    · by_cases hi : e.Asks j ⟨task, stdin, m⟩
      · have hrun := ih ⟨task, stdin, m⟩ fun k hk => hreach k (.head hi hk)
        simp only [asked, if_pos hi]
        exact hrun
      · simp only [asked, if_neg hi]
        exact .endless
    · refine if_neg fun hi => haside ?_
      exact hreach j .refl (.inr ⟨hscript, text, stdin, m, hi⟩)

/-! ## Requests -/

namespace Session

variable {s s' : Session} {request : Request} {r : Result}

/-- The job that a request gives; none when it asks for a batch file that cannot be read. -/
def job? (s : Session) : Request → Option Job
  | .line text => some ⟨.line ((s.machine.state.macros.expandLine? text).getD text), s.stdin, s.fresh⟩
  | .script name source args => some ⟨.script (.load name source) 0 (.ofCall name args), s.stdin, s.fresh⟩
  | .file path args =>
    (s.machine.host.files.readText? (Path.resolve s.machine.state.cwd path)).map fun source =>
      ⟨.script (.load (Path.resolve s.machine.state.cwd path) source) 0
        (.ofCall (Path.resolve s.machine.state.cwd path) args), s.stdin, s.fresh⟩

/-- The request comes to something that runs aside. -/
def GoesAside (s : Session) (request : Request) : Prop :=
  ∃ j, s.job? request = some j ∧ ∃ i, Relation.ReflTransGen s.engine.Asks j i ∧ s.engine.GoesAside i

theorem run_accounts (s : Session) (request : Request) :
    s.engine.Settles (s.GoesAside request) s.fresh (s.run request) := by
  have hjob (j : Job) (hj : s.job? request = some j) :
      s.engine.Settles (s.GoesAside request) j.machine (Again.run s.engine.runTask j) :=
    s.engine.perform_accounts maxLevels j fun i hi haside => ⟨j, hj, i, hi, haside⟩
  cases request with
  | line text => exact hjob _ rfl
  | script name source args => exact hjob _ rfl
  | file path args =>
    simp only [run, callBatch]
    split
    · exact .ended (.refl _ _ _)
    · rename_i source hsource
      refine hjob ⟨_, s.stdin, s.fresh⟩ ?_
      simp only [job?]
      rw [show s.machine.host.files.readText? (Path.resolve s.machine.state.cwd path) = some source from hsource]
      rfl

/-- Serving a request ends with the two counts of its run. -/
theorem counts_of_serve (h : s.serve request = some (.ok (r, s'))) : ∃ o m, s.run request = some (o, m) ∧
    s'.machine.state.commandCount = m.state.commandCount ∧ s'.machine.host.started = m.host.started := by
  obtain ⟨m, ⟨hdone, rfl⟩ | ⟨signal, out, err, hraised, rfl, rfl⟩⟩ := exists_run_of_serve h
  · exact ⟨_, m, hdone, rfl, rfl⟩
  · refine ⟨_, m, hraised, rfl, ?_⟩
    cases signal <;> rfl

/-- **The limit bounds what a request runs itself, and that is all it starts unless it goes aside.** Whatever is
asked for, the commands that the request paid for are no more than the limit, and all of them have started. It has
started as many as it paid for, or it came to a pipeline or to a loop over the lines of a command; so only these can
start more than the limit allows. A pipeline costs its caller nothing, whatever its stages run. -/
theorem started_beyond_limit (s s' : Session) (request : Request) (r : Result)
    (hserve : s.serve request = some (.ok (r, s'))) :
    s.engine.spent s'.machine ≤ s.engine.limits.commands ∧
      s.machine.host.started + s.engine.spent s'.machine ≤ s'.machine.host.started ∧
      (s'.machine.host.started = s.machine.host.started + s.engine.spent s'.machine ∨ s.GoesAside request) ∧
      (s.machine.host.started + s.engine.limits.commands < s'.machine.host.started → s.GoesAside request) ∧
      ∀ (again : Again) (stages : List Command) (stdin : String) (m : Machine),
        Ends (s.engine.runPipeline again stages stdin m) fun _ m' => s.engine.spent m' = s.engine.spent m := by
  obtain ⟨o, m, hrun, hcount, hstarted⟩ := counts_of_serve hserve
  have haccounts := s.run_accounts request o m hrun
  have hspent : s.engine.spent s'.machine = s.engine.spent m := congrArg (min · s.engine.limits.commands) hcount
  have hzero : s.engine.spent s.fresh = 0 := Nat.zero_min _
  have hfresh : s.fresh.host.started = s.machine.host.started := rfl
  have hlimit : s.engine.spent m ≤ s.engine.limits.commands := Nat.min_le_right _ _
  have hpaid := haccounts.paid
  refine ⟨by omega, by omega, ?_, fun hmore => ?_, fun again stages stdin m => ?_⟩
  · by_cases haside : s.GoesAside request
    · exact .inr haside
    · have howed := haccounts.owed haside
      exact .inl (by omega)
  · by_cases haside : s.GoesAside request
    · exact haside
    · have howed := haccounts.owed haside
      omega
  · exact .runPipeline fun _ _ => rfl

/-- A session that lets so many commands start. -/
def limited (commands : Nat) : Session :=
  { bare with engine := { Engine.bare with limits := { Limits.standard with commands := commands } } }

/-- Two commands on one line, of which the second is refused. -/
theorem started_beyond_limit_two :
    ∃ r s, (limited 1).serve (.line "echo a& echo b") = some (.ok (r, s)) ∧ r.status = executionLimitStatus ∧
      (limited 1).engine.spent s.machine ≤ 1 ∧ s.machine.host.started = 1 ∧
      (limited 1).machine.host.started + (limited 1).engine.spent s.machine ≤ s.machine.host.started := by
  have hcounts : ((limited 1).serve (.line "echo a& echo b")).served?.map
      (fun p => (p.1.status, p.2.machine.host.started)) = some (executionLimitStatus, 1) := by decide +kernel
  obtain ⟨⟨r, s⟩, hserve, hpair⟩ := Option.map_eq_some_iff.mp hcounts
  obtain ⟨hstatus, hstarted⟩ := Prod.mk.inj hpair
  have hserve := Answer.served?_eq_some_iff.mp hserve
  obtain ⟨hspent, hpaid, -⟩ := started_beyond_limit (limited 1) s (.line "echo a& echo b") r hserve
  exact ⟨r, s, hserve, hstatus, hspent, hstarted, hpaid⟩

/-- With one command allowed, both stages of a pipeline run, and nothing is refused; with two, a loop over the lines
of a command starts three. -/
theorem pipeline_beyond_limit :
    ((limited 1).serve (.line "echo a| more")).served?.map (fun p => (p.1, p.2.machine.host.started)) =
        some (⟨"a\n", "", 0⟩, 2) ∧
      ((limited 2).serve (.line "for /f %i in ('echo a') do echo %i")).served?.map
        (fun p => (p.1, p.2.machine.host.started)) = some (⟨"a\n", "", 0⟩, 3) := by
  constructor <;> decide +kernel

end Session

end BatchShell
