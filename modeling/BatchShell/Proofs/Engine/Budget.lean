import BatchShell.Proofs.Engine.Frames
import BatchShell.Proofs.Engine.Inquiry

/-!
# The budget of commands

Every command that starts is counted, and the count has a limit. What is left of it (`Engine.commandsLeft`) is
never gained back, and a jump to a label comes out of a line only after a command was counted. So each job that
the engine asks for is lighter than the one it works on (`Engine.Lighter`): less is left of the budget, or it is
further down from called commands to scripts, lines and commands, or it is a smaller command. There is one
exception. A called command that turns out to be a `CALL` again hands over to the next called command
(`Job.handsOver?`), and neither of the two is counted.

* `runLines_inquiry`: the steps that a script is given suffice, because a jump spends a command and everything
  else moves on to the next line.
* `Engine.level_inquiry`: whatever a job is, one level of the engine asks only for lighter jobs and for the one
  it hands over to.
-/
namespace BatchShell

/-! ## What changes the count -/

/-- How many commands may still start, and one more for the attempt that is refused. -/
def Engine.commandsLeft (e : Engine) (m : Machine) : Nat := e.limits.commands + 1 - m.state.commandCount

namespace State

variable (s : State)

@[simp] theorem enterPhase_commandCount (phase : Phase) :
    (s.enterPhase phase).commandCount = s.commandCount := by
  unfold enterPhase; split <;> rfl

theorem pushLoop_commandCount : s.pushLoop.commandCount = s.commandCount := enterPhase_commandCount s _

theorem popLoop_commandCount (phase : Phase) : (s.popLoop phase).commandCount = s.commandCount :=
  enterPhase_commandCount s phase

theorem goTo_commandCount (next : Nat) : (s.goTo next).commandCount = s.commandCount := by
  unfold goTo; split <;> rfl

theorem pushCall_commandCount (script : Script) (start : Nat) (params : Params) :
    (s.pushCall script start params).commandCount = s.commandCount := by
  unfold pushCall; split <;> simp

theorem popCall_commandCount (phase : Phase) : (s.popCall phase).commandCount = s.commandCount := by
  unfold popCall; split <;> simp

end State

theorem Engine.commandsLeft_withState (e : Engine) {m : Machine} {s : State}
    (h : s.commandCount = m.state.commandCount) : e.commandsLeft (m.withState s) = e.commandsLeft m :=
  congrArg (e.limits.commands + 1 - ·) h

namespace Builtin

variable (s : State)

theorem runEcho_commandCount (raw : String) : (runEcho s raw).2.commandCount = s.commandCount := by
  unfold runEcho
  extract_lets message word
  split
  · rfl
  · split
    · rfl
    · split <;> rfl

theorem runSet_commandCount (raw stdin : String) : (runSet s raw stdin).2.commandCount = s.commandCount := by
  unfold runSet
  extract_lets text body
  split
  · unfold setArithmetic
    split
    · rfl
    · rcases Arithmetic.evaluate _ s.env with ⟨_ | _, _⟩ <;> rfl
  · unfold setPrompt
    split
    · rfl
    · split <;> rfl
  · split
    · rfl
    · split
      · rfl
      · split <;> rfl

theorem runEndlocal_commandCount : (runEndlocal s).2.commandCount = s.commandCount := by
  unfold runEndlocal
  split <;> rfl

theorem runCd_commandCount (files : FileTree) (raw : String) :
    (runCd files s raw).2.commandCount = s.commandCount := by
  obtain ⟨path, hstate⟩ := exists_cwd_runCd files s raw
  rw [hstate]

theorem runPushd_commandCount (files : FileTree) (raw : String) :
    (runPushd files s raw).2.commandCount = s.commandCount := by
  unfold runPushd
  extract_lets text
  split
  · rfl
  · split <;> rfl

theorem runPopd_commandCount : (runPopd s).2.commandCount = s.commandCount := by
  unfold runPopd
  split <;> rfl

theorem runExit_commandCount (args : List String) : (runExit s args).2.commandCount = s.commandCount := by
  unfold runExit
  dsimp only
  split <;> simp

theorem runShift_commandCount (args : List String) : (runShift s args).2.commandCount = s.commandCount := by
  unfold runShift
  split
  · unfold shiftParams
    split <;> rfl
  · rfl

theorem runVerify_commandCount (args : List String) : (runVerify s args).2.commandCount = s.commandCount := by
  unfold runVerify
  split
  · rfl
  · split
    · rfl
    · split <;> rfl
  · rfl

theorem runDoskey_commandCount (raw : String) : (runDoskey s raw).2.commandCount = s.commandCount := by
  unfold runDoskey
  extract_lets invalid
  split
  · rfl
  · rfl
  · split
    · rfl
    · extract_lets name
      split <;> rfl

end Builtin

/-- No internal command but `CALL` asks for anything, counts or touches the host. -/
theorem runBuiltin_alone (e : Engine) {builtin : Builtin} (h : builtin ≠ .call) (args : List String)
    (raw stdin : String) (m : Machine) :
    ∃ o m', (∀ again, e.runBuiltin again builtin args raw stdin m = some (o, m')) ∧
      m'.state.commandCount = m.state.commandCount ∧ m'.host = m.host := by
  have change : ∀ r : Result × State, r.2.commandCount = m.state.commandCount →
      ∃ o m', (∀ _ : Again, some (Outcome.done r.1, m.withState r.2) = some (o, m')) ∧
        m'.state.commandCount = m.state.commandCount ∧ m'.host = m.host :=
    fun r hr => ⟨.done r.1, m.withState r.2, fun _ => rfl, hr, rfl⟩
  have plain : ∀ r : Result, ∃ o m', (∀ _ : Again, some (Outcome.done r, m) = some (o, m')) ∧
      m'.state.commandCount = m.state.commandCount ∧ m'.host = m.host :=
    fun r => ⟨.done r, m, fun _ => rfl, rfl, rfl⟩
  have leave : ∀ r : Outcome × State, r.2.commandCount = m.state.commandCount →
      ∃ o m', (∀ _ : Again, some (r.1, m.withState r.2) = some (o, m')) ∧
        m'.state.commandCount = m.state.commandCount ∧ m'.host = m.host :=
    fun r hr => ⟨r.1, m.withState r.2, fun _ => rfl, hr, rfl⟩
  cases builtin with
  | call => exact absurd rfl h
  | echo => exact change _ (Builtin.runEcho_commandCount m.state raw)
  | set => exact leave _ (Builtin.runSet_commandCount m.state raw stdin)
  | setlocal => exact change (Builtin.runSetlocal m.state) rfl
  | endlocal => exact change _ (Builtin.runEndlocal_commandCount m.state)
  | cd => exact leave _ (Builtin.runCd_commandCount m.state m.host.files raw)
  | pushd => exact change _ (Builtin.runPushd_commandCount m.state m.host.files raw)
  | popd => exact change _ (Builtin.runPopd_commandCount m.state)
  | exit => exact leave _ (Builtin.runExit_commandCount m.state args)
  | shift => exact change _ (Builtin.runShift_commandCount m.state args)
  | goto => exact ⟨Builtin.runGoto m.state args, m, fun _ => rfl, rfl, rfl⟩
  | title => exact change (Builtin.runTitle m.state raw) rfl
  | verify => exact change _ (Builtin.runVerify_commandCount m.state args)
  | doskey => exact change _ (Builtin.runDoskey_commandCount m.state raw)
  | _ => exact plain _

/-! ## Lighter jobs -/

/-- How far up a task is: commands come up in lines, lines in scripts, and scripts are called. -/
def Task.rank : Task → Nat
  | .command _ => 0
  | .line _ => 1
  | .script _ _ _ => 2
  | .called _ => 3

/-- How many commands a command is made of. -/
def Command.size : Command → Nat
  | .simple _ => 1
  | .block body _ | .ifThen _ body | .loop _ body => body.size + 1
  | .ifElse _ left right | .pipe left right | .both left right | .andThen left right | .orElse left right =>
    left.size + right.size + 1

/-- The size of a command; other tasks are not compared by size. -/
def Task.size : Task → Nat
  | .command c => c.size
  | _ => 0

/-- Less is left of the budget; or no more is left, and the task is further down or smaller. -/
def Engine.Lighter (e : Engine) (i j : Job) : Prop :=
  e.commandsLeft i.machine < e.commandsLeft j.machine ∨
    e.commandsLeft i.machine ≤ e.commandsLeft j.machine ∧
      (i.task.rank < j.task.rank ∨ i.task.rank = j.task.rank ∧ i.task.size < j.task.size)

theorem Engine.wellFounded_lighter (e : Engine) : WellFounded e.Lighter := by
  let weight (j : Job) : Nat × Nat × Nat := (e.commandsLeft j.machine, j.task.rank, j.task.size)
  have hlex : WellFounded (Prod.Lex (· < ·) (Prod.Lex (· < ·) (· < ·)) : Nat × Nat × Nat → _ → Prop) :=
    (Prod.lex Nat.lt_wfRel (Prod.lex Nat.lt_wfRel Nat.lt_wfRel)).wf
  refine Subrelation.wf (fun {i j} h => ?_) (InvImage.wf weight hlex)
  simp only [InvImage, Prod.lex_def, weight]
  unfold Engine.Lighter at h
  omega

/-- The command that a `CALL` with a text leads to, if it is a simple command and no label. -/
def callTarget? (raw : String) (m : Machine) : Option SimpleCommand :=
  match Expansion.expandPercent m.host.files m.host.now m.state (Text.trimStart raw) with
  | .error _ => none
  | .ok line =>
    match Command.ofTokens? (Token.scan line) with
    | .ok (some (.simple c)) => if c.name.toList.head? == some ':' then none else some c
    | _ => none

/-- The machine after `CALL` has expanded its text. -/
def Machine.passCall (m : Machine) (raw : String) : Machine := m.pass (Text.trimStart raw).length

/-- The command that a name and a text lead to, if the name is that of `CALL`. -/
def calledBy? (name raw : String) (m : Machine) : Option SimpleCommand :=
  if (Builtin.echoText? name).isSome then none
  else
    match Resolution.find m.host.files m.state.env m.state.cwd name with
    | .builtin .call => callTarget? raw m
    | _ => none

/-- The called command that a called command hands over to, once its files are open. Nothing is counted. -/
def Job.handsOver? (j : Job) : Option Job :=
  match j.task with
  | .called c =>
    let fill := Expansion.fillLoopVars j.machine.host.files j.machine.state.cwd j.machine.state.loops
    match Plan.prepare j.machine.state j.machine.host.files c.redirections with
    | (.error _, _) => none
    | (.ok plan, files) =>
      if (fill c.name).isEmpty then none
      else (calledBy? (fill c.name) (fill c.rawArgs) (j.machine.withFiles files)).map fun next =>
        ⟨.called next, plan.stdin.getD j.stdin, (j.machine.withFiles files).passCall (fill c.rawArgs)⟩
  | _ => none

/-- Handing over moves to another called command and leaves the budget as it is. -/
theorem Job.handsOver?_called {i j : Job} (h : j.handsOver? = some i) (e : Engine) :
    i.task.rank = j.task.rank ∧ i.task.size = j.task.size ∧
      e.commandsLeft i.machine = e.commandsLeft j.machine := by
  obtain ⟨task, stdin, m⟩ := j
  cases task with
  | called c =>
    simp only [Job.handsOver?] at h
    split at h
    · cases h
    · split at h
      · cases h
      · obtain ⟨next, -, rfl⟩ := Option.map_eq_some_iff.mp h
        exact ⟨rfl, rfl, rfl⟩
  | _ => cases h

namespace Engine.Lighter

variable {e : Engine} {i j k : Job}

theorem le (h : e.Lighter i j) : e.commandsLeft i.machine ≤ e.commandsLeft j.machine := by
  unfold Engine.Lighter at h
  omega

/-- What is lighter than the job that is handed over to is lighter than the one that hands over. -/
theorem of_handsOver (h : e.Lighter k i) (hover : j.handsOver? = some i) : e.Lighter k j := by
  obtain ⟨hrank, hsize, hleft⟩ := Job.handsOver?_called hover e
  unfold Engine.Lighter at h ⊢
  rwa [hrank, hsize, hleft] at h

end Engine.Lighter

/-! ## Answers -/

/-- Is it a jump to a label? -/
def Ending.isJump : Ending → Bool
  | .signal (.goto _) => true
  | _ => false

/-- With `n` left before, no more is left, and less after a jump. -/
def Engine.Spends (e : Engine) (n : Nat) (r : Outcome × Machine) : Prop :=
  e.commandsLeft r.2 ≤ n ∧ (r.1.ending.isJump = true → e.commandsLeft r.2 < n)

/-- What a job does to the budget. A called command was counted by whoever called it. -/
def Engine.Charges (e : Engine) (j : Job) (r : Outcome × Machine) : Prop :=
  match j.task with
  | .called _ => e.commandsLeft r.2 ≤ e.commandsLeft j.machine
  | _ => e.Spends (e.commandsLeft j.machine) r

/-- An answer to a job: the machine is left as it should be, and the budget is charged. -/
def Engine.Answers (e : Engine) (j : Job) (r : Outcome × Machine) : Prop :=
  j.task.Leaves j.machine r.1.ending r.2 ∧ e.Charges j r

section

variable {e : Engine} {allowed : Job → Prop} {n : Nat} {m : Machine} {stdin : String}

theorem Engine.Spends.of_le {r : Outcome × Machine} (hle : e.commandsLeft r.2 ≤ n)
    (hjump : r.1.ending.isJump = false) : e.Spends n r :=
  ⟨hle, fun h => by rw [hjump] at h; cases h⟩

theorem Engine.Spends.mono {n' : Nat} {r : Outcome × Machine} (h : e.Spends n r) (hle : n ≤ n') :
    e.Spends n' r :=
  ⟨Nat.le_trans h.1 hle, fun hjump => Nat.lt_of_lt_of_le (h.2 hjump) hle⟩

theorem Engine.Answers.le {j : Job} {r : Outcome × Machine} (h : e.Answers j r) :
    e.commandsLeft r.2 ≤ e.commandsLeft j.machine := by
  obtain ⟨-, hcharges⟩ := h
  unfold Engine.Charges at hcharges
  split at hcharges
  · exact hcharges
  · exact hcharges.1

/-- Something that asks for allowed jobs only and leaves no more than `n` of the budget. -/
abbrev Engine.Within (e : Engine) (allowed : Job → Prop) (n : Nat) (f : Again → Run) : Prop :=
  Inquiry e.Answers allowed (fun r => e.commandsLeft r.2 ≤ n) f

/-! ## Simple commands -/

section

variable (hle : e.commandsLeft m ≤ n)
  (hscript : ∀ m' script start params, m'.state = m.state → allowed ⟨.script script start params, stdin, m'⟩)
include hle hscript

theorem callLabel_within (label : String) (args : List String) :
    e.Within allowed n fun again => callLabel again label args stdin m := by
  unfold callLabel
  split
  · exact .result _ hle
  · split
    · exact .result _ hle
    · exact .single ⟨.script _ _ _, stdin, m⟩ (hscript m _ _ _ rfl) fun r hr => Nat.le_trans hr.le hle

theorem callBatch_within (path : String) (args : List String) :
    e.Within allowed n fun again => callBatch again path args stdin m := by
  unfold callBatch
  split
  · exact .result _ hle
  · exact .single ⟨.script _ _ _, stdin, m⟩ (hscript m _ _ _ rfl) fun r hr => Nat.le_trans hr.le hle

theorem chainBatch_within (path : String) (args : List String) :
    e.Within allowed n fun again => chainBatch again path args stdin m := by
  refine (callBatch_within hle hscript path args).map fun r hr => ?_
  obtain ⟨o, m'⟩ := r
  cases o <;> exact hr

variable (hcommand : ∀ m' c, m'.state = m.state → allowed ⟨.command c, stdin, m'⟩)
include hcommand

/-- `CALL` asks for a script, a command or the called command that its text leads to. -/
theorem runCall_within {raw : String}
    (hcalled : ∀ c, callTarget? raw m = some c → allowed ⟨.called c, stdin, m.passCall raw⟩) :
    e.Within allowed n fun again => runCall again raw stdin m := by
  -- the text is expanded before anything is asked for
  have hle' : e.commandsLeft (m.passCall raw) ≤ n := hle
  unfold runCall
  dsimp only
  split
  · exact .result _ hle
  · rename_i line hexpand
    split
    · exact .result _ hle
    · exact .result _ hle
    · rename_i c hparse
      split
      · exact callLabel_within hle' hscript _ _
      · rename_i hlabel
        have htarget : callTarget? raw m = some c := by simp [callTarget?, hexpand, hparse, hlabel]
        exact .single ⟨.called c, stdin, m.passCall raw⟩ (hcalled c htarget) fun r hr => Nat.le_trans hr.le hle
    · rename_i c _ _
      exact .single ⟨.command c, stdin, m.passCall raw⟩ (hcommand _ c rfl) fun r hr => Nat.le_trans hr.le hle

theorem dispatch_within {name raw : String}
    (hcalled : ∀ c, calledBy? name raw m = some c → allowed ⟨.called c, stdin, m.passCall raw⟩) (called : Bool)
    (args : List String) : e.Within allowed n fun again => e.dispatch again called name args raw stdin m := by
  unfold Engine.dispatch
  split
  · exact .result _ hle
  · rename_i hecho
    split
    · rename_i builtin hfind
      by_cases hcall : builtin = .call
      · subst hcall
        refine runCall_within hle hscript hcommand fun c hc => hcalled c ?_
        simpa [calledBy?, hecho, hfind] using hc
      · obtain ⟨o, m', hrun, hcount, -⟩ := runBuiltin_alone e hcall args raw stdin m
        simp only [hrun]
        have hsame : e.commandsLeft m' = e.commandsLeft m := congrArg (e.limits.commands + 1 - ·) hcount
        exact .result _ (hsame ▸ hle)
    · split
      · exact callBatch_within hle hscript _ _
      · exact chainBatch_within hle hscript _ _
    · exact .result _ hle
    · exact .result _ hle

end

/-- Recording a status leaves the budget alone. -/
theorem recorded_within {f : Again → Run} (h : e.Within allowed n f) :
    e.Within allowed n fun again => Run.recorded (f again) := by
  refine h.map fun r hr => ?_
  obtain ⟨o, m'⟩ := r
  cases o <;> exact hr

/-- So do redirections, which only open files and deliver output. -/
theorem redirected_within {rs : List Redirection} {body : Again → String → Machine → Run}
    (hle : e.commandsLeft m ≤ n)
    (hbody : ∀ plan files, Plan.prepare m.state m.host.files rs = (.ok plan, files) →
      e.Within allowed n fun again => body again (plan.stdin.getD stdin) (m.withFiles files)) :
    e.Within allowed n fun again => redirected rs stdin m (body again) := by
  unfold redirected
  split
  · exact .result _ hle
  · rename_i plan files hprepare
    exact (hbody plan files hprepare).map fun r hr => hr

/-- A simple command asks for lighter jobs and for the one it hands over to. -/
theorem runSimple_within (called : Bool) (c : SimpleCommand) (stdin : String) (m : Machine) :
    e.Within (fun i => e.Lighter i ⟨.called c, stdin, m⟩ ∨ Job.handsOver? ⟨.called c, stdin, m⟩ = some i)
      (e.commandsLeft m) fun again => e.runSimple again called c stdin m := by
  unfold Engine.runSimple
  dsimp only
  refine redirected_within (Nat.le_refl _) fun plan files hprepare => ?_
  split
  · exact .result _ (Nat.le_refl _)
  · rename_i hname
    -- opening files is not counted, so what is below a called command is lighter
    have hle : e.commandsLeft (m.withFiles files) ≤ e.commandsLeft m := Nat.le_refl _
    have hlighter : ∀ m' task stdin', m'.state = m.state → task.rank < 3 →
        e.Lighter ⟨task, stdin', m'⟩ ⟨.called c, stdin, m⟩ := by
      intro m' task stdin' hstate hrank
      have hsame : e.commandsLeft m' = e.commandsLeft m := by rw [Engine.commandsLeft, hstate]; rfl
      exact .inr ⟨Nat.le_of_eq hsame, .inl hrank⟩
    refine recorded_within ?_
    refine dispatch_within hle (fun m' _ _ _ h => Or.inl (hlighter m' _ _ h (by simp [Task.rank])))
      (fun m' _ h => Or.inl (hlighter m' _ _ h (by simp [Task.rank]))) (fun c' hc' => Or.inr ?_) called _
    simp [Job.handsOver?, hprepare, hname, hc']

/-! ## Pipelines -/

theorem Command.size_le_of_mem_stages {s c : Command} (h : s ∈ c.stages) : s.size ≤ c.size := by
  induction c with
  | pipe left right ihl ihr =>
    simp only [Command.stages, List.mem_append] at h
    simp only [Command.size]
    rcases h with h | h
    · have := ihl h
      omega
    · have := ihr h
      omega
  | _ =>
    simp only [Command.stages, List.mem_singleton] at h
    exact Nat.le_of_eq (congrArg Command.size h)

/-- The stages of a pipeline run in the state that they all start from. -/
theorem runStages_inquiry (base : State) (stages : List Command) : ∀ (before : StageResult) (host : Host),
    Inquiry e.Answers (fun i => (∃ s ∈ stages, i.task = .command s) ∧ i.machine.state = base) (fun _ => True)
      fun again => e.runStages again base before host stages := by
  induction stages with
  | nil =>
    intro before host
    exact .result (before, host) trivial
  | cons c cs ih =>
    intro before host
    have hstage : Inquiry e.Answers (fun i => (∃ s ∈ c :: cs, i.task = .command s) ∧ i.machine.state = base)
        (fun _ => True) fun again => e.runStage again c before.stdout ⟨base, host⟩ := by
      unfold Engine.runStage
      split
      · exact .result _ trivial
      · have hasked : Inquiry e.Answers
            (fun i => (∃ s ∈ c :: cs, i.task = .command s) ∧ i.machine.state = base) (fun _ => True)
            fun again => again.run ⟨.command c, Text.ofBytes before.stdout, ⟨base, host⟩⟩ :=
          .single _ ⟨⟨c, List.mem_cons_self, rfl⟩, rfl⟩ fun _ _ => trivial
        exact hasked.map fun _ _ => trivial
    refine hstage.followed (fun again h => by simp only [Engine.runStages, h]) fun p _ => ?_
    have hrest := ih ⟨p.1.stdout, before.stderr ++ p.1.stderr, p.1.status⟩ p.2
    refine ⟨_, hrest.mono ?_ fun _ _ => trivial, fun again h => by simp only [Engine.runStages, h]⟩
    rintro i ⟨⟨s, hs, htask⟩, hstate⟩
    exact ⟨⟨s, List.mem_cons_of_mem c hs, htask⟩, hstate⟩

/-! ## Loops -/

/-- The values of a loop may come from the output of a line, which runs in a copy of the state. -/
theorem loopValues_inquiry (head : LoopHead) (m : Machine) :
    Inquiry e.Answers (fun i => e.commandsLeft i.machine ≤ e.commandsLeft m) (fun p => p.2.state = m.state)
      fun again => e.loopValues again head m := by
  unfold Engine.loopValues
  dsimp only
  split
  · exact .result _ rfl
  · exact .result _ rfl
  · exact .result _ rfl
  · split <;> exact .result _ rfl
  · unfold Engine.lineValues
    split
    · exact .result _ rfl
    · exact .result _ rfl
    · split
      · rename_i line _
        have hle : e.commandsLeft ⟨(m.state.enterPhase .branching).child, m.host⟩ ≤ e.commandsLeft m := by
          simp [Engine.commandsLeft, State.child]
        have hasked : Inquiry e.Answers (fun i => e.commandsLeft i.machine ≤ e.commandsLeft m) (fun _ => True)
            fun again => again.run ⟨.line line, "", ⟨(m.state.enterPhase .branching).child, m.host⟩⟩ :=
          .single _ hle fun _ _ => trivial
        exact hasked.map fun _ _ => rfl
      · exact .result _ rfl
      · split <;> exact .result _ rfl

theorem iterate_within (limit : Nat) (letter : Char) {body : Again → Machine → Run}
    (hbody : ∀ m, e.commandsLeft m ≤ n → e.Within allowed n fun again => body again m) (remaining : Nat) :
    ∀ (values : Loop.Values) (result : Result) (m : Machine), e.commandsLeft m ≤ n →
      e.Within allowed n fun again => iterate limit letter (body again) remaining values result m := by
  induction remaining with
  | zero =>
    intro values result m hle
    unfold iterate
    split
    · exact .result _ hle
    · exact .result _ hle
    · rename_i hz
      cases hz
  | succ remaining ih =>
    intro values result m hle
    unfold iterate
    split
    · exact .result _ hle
    · rename_i hz
      cases hz
    · rename_i value rest k hnext hk
      cases hk
      have hbound := hbody (m.withState (m.state.bindLoop (Loop.bind letter value))) hle
      refine hbound.followed (fun again h => by simp only [h]) ?_
      rintro ⟨o, m'⟩ hm'
      cases o with
      | done r => exact ⟨_, ih rest (result.append r) m' hm', fun again h => by simp only [h]⟩
      | raised s out err =>
        exact ⟨_, .result (Outcome.after result (.raised s out err), m') hm', fun again h => by simp only [h]⟩
      | crashed why =>
        exact ⟨_, .result (Outcome.after result (.crashed why), m') hm', fun again h => by simp only [h]⟩

theorem runLoop_within {body : Again → Machine → Run} (hle : e.commandsLeft m ≤ n)
    (hbody : ∀ m, e.commandsLeft m ≤ n →
      e.Within (fun i => e.commandsLeft i.machine ≤ n) n fun again => body again m) (head : LoopHead) :
    e.Within (fun i => e.commandsLeft i.machine ≤ n) n fun again => e.runLoop again head (body again) m := by
  have hvalues := (loopValues_inquiry (e := e) head m).mono (fun _ hi => Nat.le_trans hi hle) fun _ hp => hp
  refine hvalues.followed (fun again h => by simp only [Engine.runLoop, h]) ?_
  rintro ⟨production, m'⟩ hstate
  have hle' : e.commandsLeft m' ≤ n := by
    rw [Engine.commandsLeft, hstate]
    exact hle
  cases production with
  | error failed =>
    exact ⟨_, .result (failed, m') hle', fun again h => by simp only [Engine.runLoop, h]⟩
  | ok found =>
    have hentered : e.commandsLeft (m'.withState m'.state.pushLoop) ≤ n := by
      rwa [e.commandsLeft_withState (State.pushLoop_commandCount _)]
    have hloop := iterate_within e.limits.iterations head.letter hbody e.limits.iterations found.1
      ⟨"", found.2, m'.state.status⟩ _ hentered
    refine ⟨_, hloop.map fun r hr => ?_, fun again h => by simp only [Engine.runLoop, h]; rfl⟩
    rwa [e.commandsLeft_withState (State.popLoop_commandCount _ _)]

/-! ## Scripts -/

/-- The innermost frame runs a script and goes on at line `next`. -/
def State.RunsAt (s : State) (script : Script) (next : Nat) : Prop :=
  ∃ frame outer, s.calls = frame :: outer ∧ frame.script = script ∧ frame.next = next

namespace State.RunsAt

variable {s s' : State} {script : Script} {next : Nat}

theorem nextLine? (h : s.RunsAt script next) : s.nextLine? = script.lines[next]?.map (next, ·) := by
  obtain ⟨frame, outer, hcalls, rfl, rfl⟩ := h
  simp [State.nextLine?, hcalls]

theorem goTo (h : s.RunsAt script next) (target : Nat) : (s.goTo target).RunsAt script target := by
  obtain ⟨frame, outer, hcalls, rfl, rfl⟩ := h
  exact ⟨{ frame with next := target }, outer, by simp [State.goTo, hcalls], rfl, rfl⟩

/-- Nothing but the script itself moves to another line. -/
theorem of_kept {ending : Ending} (h : s.RunsAt script next) (hkept : Kept s ending s') :
    s'.RunsAt script next := by
  obtain ⟨frame, outer, hcalls, rfl, rfl⟩ := h
  have hshifted := hkept.calls
  rw [hcalls] at hshifted
  generalize hs' : s'.calls = calls' at hshifted
  cases hshifted with
  | inside _ _ starts => exact ⟨_, outer, hs', rfl, rfl⟩

end State.RunsAt

/-- How many more lines a script can run from line `next` on: all that follow, and all lines again for each
command that is left. -/
def Engine.linesLeft (e : Engine) (script : Script) (m : Machine) (next : Nat) : Nat :=
  e.commandsLeft m * (script.lines.length + 1) + (script.lines.length - next)

variable {m' : Machine}

theorem Engine.linesLeft_next {script : Script} {next : Nat}
    (hle : e.commandsLeft m' ≤ e.commandsLeft m) (hnext : next < script.lines.length) :
    e.linesLeft script m' (next + 1) < e.linesLeft script m next := by
  have hmul := Nat.mul_le_mul_right (script.lines.length + 1) hle
  unfold Engine.linesLeft
  omega

theorem Engine.linesLeft_jump (e : Engine) (script : Script) (next target : Nat)
    (hlt : e.commandsLeft m' < e.commandsLeft m) :
    e.linesLeft script m' target < e.linesLeft script m next := by
  have hmul := Nat.mul_le_mul_right (script.lines.length + 1) (Nat.succ_le_of_lt hlt)
  rw [Nat.succ_mul] at hmul
  unfold Engine.linesLeft
  omega

/-- How the script goes on after a line that ended with an outcome. -/
def afterLine (again : Again) (stdin : String) (steps : Nat) (out err : String) : Outcome × Machine → Run
  | (.done r, m) => runLines again stdin steps (out ++ r.stdout) (err ++ r.stderr) m
  | (.raised (.goto label) o e, m) =>
    if Signal.isEndOfFile label then some (.done ⟨out ++ o, err ++ e, m.state.status⟩, m)
    else
      match m.state.labelTarget? label with
      | some target => runLines again stdin steps (out ++ o) (err ++ e) (m.withState (m.state.goTo target))
      | none => some (.raised (.labelNotFound label) (out ++ o) (err ++ e ++ labelNotFoundText label), m)
  | (.raised (.exit status true) o e, m) => some (.done ⟨out ++ o, err ++ e, status⟩, m.withStatus status)
  | (.raised signal o e, m) => some (.raised signal (out ++ o) (err ++ e), m)
  | (.crashed why, m) => some (.crashed why, m)

/-- A script runs its next line, or passes over it, or ends. -/
theorem runLines_succ (again : Again) (stdin : String) (steps : Nat) (out err : String) {script : Script}
    {next : Nat} (h : m.state.RunsAt script next) :
    runLines again stdin (steps + 1) out err m =
      match script.lines[next]? with
      | none => some (.done ⟨out, err, m.state.status⟩, m)
      | some line =>
        let gone := m.withState (m.state.goTo (next + 1))
        if line.kind = .command then
          (again.run ⟨.line line.text, stdin, gone.pass gone.state.promptTemplate.length⟩).bind
            (afterLine again stdin steps (out ++ echoedLine gone.host.now gone.state line.text) err)
        else runLines again stdin steps out err gone := by
  rw [runLines, h.nextLine?]
  cases script.lines[next]? with
  | none => rfl
  | some line =>
    simp only [Option.map_some, Again.run]
    generalize m.withState (m.state.goTo (next + 1)) = gone
    cases hkind : line.kind with
    | command =>
      rw [if_pos rfl]
      cases again (.line line.text) stdin (gone.pass gone.state.promptTemplate.length) with
      | none => rfl
      | some r =>
        obtain ⟨o, m'⟩ := r
        cases o with
        | done r => rfl
        | raised signal out' err' =>
          cases signal with
          | exit status batchOnly => cases batchOnly <;> rfl
          | _ => rfl
        | crashed why => rfl
    | _ => rfl

/-- The lines of a frame ask for lines only, and no jump comes out of them. -/
abbrev Engine.RunsLines (e : Engine) (n : Nat) (f : Again → Run) : Prop :=
  Inquiry e.Answers (fun i => e.commandsLeft i.machine ≤ n ∧ ∃ text, i.task = .line text)
    (fun r => e.commandsLeft r.2 ≤ n ∧ r.1.ending.isJump = false) f

/-- After a line fewer lines are left to run, also if it ended with a jump: that one was counted. -/
theorem afterLine_inquiry {script : Script} {steps next : Nat} {o : Outcome}
    (ih : ∀ (out err : String) (m : Machine) (next : Nat), m.state.RunsAt script next → e.commandsLeft m ≤ n →
      e.linesLeft script m next < steps → e.RunsLines n fun again => runLines again stdin steps out err m)
    (hat : m'.state.RunsAt script (next + 1)) (hle : e.commandsLeft m ≤ n)
    (hspends : e.Spends (e.commandsLeft m) (o, m')) (hnext : next < script.lines.length)
    (hsteps : e.linesLeft script m next < steps + 1) (out err : String) :
    e.RunsLines n fun again => afterLine again stdin steps out err (o, m') := by
  have hle' : e.commandsLeft m' ≤ n := Nat.le_trans hspends.1 hle
  cases o with
  | done r =>
    have hfewer : e.linesLeft script m' (next + 1) < e.linesLeft script m next :=
      Engine.linesLeft_next hspends.1 hnext
    exact ih _ _ m' (next + 1) hat hle' (by omega)
  | raised signal o er =>
    cases signal with
    | goto label =>
      simp only [afterLine]
      split
      · exact .result _ ⟨hle', rfl⟩
      · split
        · rename_i target _
          have hmoved : e.commandsLeft (m'.withState (m'.state.goTo target)) = e.commandsLeft m' :=
            e.commandsLeft_withState (State.goTo_commandCount _ _)
          have hfewer := e.linesLeft_jump script next target (hmoved ▸ hspends.2 rfl)
          exact ih _ _ _ target (hat.goTo target) (hmoved ▸ hle') (by omega)
        · exact .result _ ⟨hle', rfl⟩
    | exit status batchOnly => cases batchOnly <;> exact .result _ ⟨hle', rfl⟩
    | _ => exact .result _ ⟨hle', rfl⟩
  | crashed why => exact .result _ ⟨hle', rfl⟩

/-- A script that is given more steps than it can run lines comes to its end. -/
theorem runLines_inquiry {script : Script} (steps : Nat) : ∀ (out err : String) (m : Machine) (next : Nat),
    m.state.RunsAt script next → e.commandsLeft m ≤ n → e.linesLeft script m next < steps →
      e.RunsLines n fun again => runLines again stdin steps out err m := by
  induction steps with
  | zero =>
    intro out err m next _ _ hsteps
    cases hsteps
  | succ steps ih =>
    intro out err m next hat hle hsteps
    simp only [runLines_succ _ _ _ _ _ hat]
    cases hline : script.lines[next]? with
    | none => exact .result _ ⟨hle, rfl⟩
    | some line =>
      have hnext : next < script.lines.length := (List.getElem?_eq_some_iff.mp hline).1
      -- the frame has moved on before the line runs
      have hgone : (m.withState (m.state.goTo (next + 1))).state.RunsAt script (next + 1) := hat.goTo (next + 1)
      have hsame : e.commandsLeft (m.withState (m.state.goTo (next + 1))) = e.commandsLeft m :=
        e.commandsLeft_withState (State.goTo_commandCount _ _)
      generalize m.withState (m.state.goTo (next + 1)) = gone at hgone hsame
      dsimp only
      split
      · let job : Job := ⟨.line line.text, stdin, gone.pass gone.state.promptTemplate.length⟩
        have hasked : Inquiry e.Answers (fun i => e.commandsLeft i.machine ≤ n ∧ ∃ text, i.task = .line text)
            (e.Answers job) fun again => again.run job :=
          .single _ ⟨hsame ▸ hle, line.text, rfl⟩ fun _ hr => hr
        refine hasked.bind ?_
        rintro ⟨o, m'⟩ ⟨hkept, hspends⟩
        exact afterLine_inquiry ih (hgone.of_kept hkept) hle (hsame ▸ hspends) hnext hsteps _ err
      · have hfewer := Engine.linesLeft_next (Nat.le_of_eq hsame) hnext
        exact ih _ _ gone (next + 1) hgone (hsame ▸ hle) (by omega)

theorem runScript_inquiry (script : Script) (start : Nat) (params : Params) (stdin : String) (m : Machine) :
    Inquiry e.Answers (fun i => e.commandsLeft i.machine ≤ e.commandsLeft m ∧ ∃ text, i.task = .line text)
      (e.Spends (e.commandsLeft m)) fun again => e.runScript again script start params stdin m := by
  unfold Engine.runScript
  dsimp only
  split
  · exact .result _ (.of_le (Nat.le_refl _) rfl)
  · have hsame : e.commandsLeft (m.withState (m.state.pushCall script start params)) = e.commandsLeft m :=
      e.commandsLeft_withState (State.pushCall_commandCount _ _ _ _)
    have hat : (m.withState (m.state.pushCall script start params)).state.RunsAt script start :=
      ⟨_, _, rfl, rfl, rfl⟩
    have hsteps : e.linesLeft script (m.withState (m.state.pushCall script start params)) start <
        e.limits.scriptSteps script := by
      have hle : e.commandsLeft m ≤ e.limits.commands + 1 := Nat.sub_le _ _
      have hmul := Nat.mul_le_mul_right (script.lines.length + 1) hle
      have hall : (e.limits.commands + 2) * (script.lines.length + 1) =
          (e.limits.commands + 1) * (script.lines.length + 1) + (script.lines.length + 1) := Nat.succ_mul _ _
      rw [Engine.linesLeft, Limits.scriptSteps, hsame]
      omega
    refine (runLines_inquiry _ "" "" _ start hat (Nat.le_of_eq hsame) hsteps).map fun r hr => ?_
    refine .of_le ?_ hr.2
    rw [e.commandsLeft_withState (State.popCall_commandCount _ _)]
    exact hr.1

/-! ## Commands and lines -/

/-- A command that is counted spends some of the budget before anything else. -/
theorem counted_spends {task : Task} {body : Again → Machine → Run}
    (hbody : e.Within (fun i => e.commandsLeft i.machine ≤ e.commandsLeft m.count.noteStart)
      (e.commandsLeft m.count.noteStart) fun again => body again m.count.noteStart) :
    Inquiry e.Answers (e.Lighter · ⟨task, stdin, m⟩) (e.Spends (e.commandsLeft m))
      fun again => e.counted m (body again) := by
  have hcount : m.count.state.commandCount = m.state.commandCount + 1 := rfl
  unfold Engine.counted
  split
  · exact .result _ (.of_le (Nat.le_refl _) rfl)
  · split
    · refine .result _ (.of_le ?_ rfl)
      rw [Engine.commandsLeft, hcount]
      exact Nat.sub_le_sub_left (Nat.le_succ _) _
    · rename_i hlimit
      have hless : e.commandsLeft m.count.noteStart < e.commandsLeft m := by
        show e.limits.commands + 1 - m.count.state.commandCount < e.limits.commands + 1 - m.state.commandCount
        omega
      refine hbody.mono (fun i hi => .inl (Nat.lt_of_le_of_lt hi hless)) fun r hr => ?_
      exact ⟨Nat.le_of_lt (Nat.lt_of_le_of_lt hr hless), fun _ => Nat.lt_of_le_of_lt hr hless⟩

/-- One command after another. -/
theorem andThen_spends {first : Again → Run} {next : Again → Result → Machine → Run}
    (hfirst : Inquiry e.Answers allowed (e.Spends n) first)
    (hnext : ∀ r m, e.commandsLeft m ≤ n → Inquiry e.Answers allowed (e.Spends n) fun again => next again r m) :
    Inquiry e.Answers allowed (e.Spends n) fun again => Run.andThen (first again) (next again) := by
  refine hfirst.followed (fun again h => by simp only [Run.andThen, h]) ?_
  rintro ⟨o, m'⟩ hspends
  cases o with
  | raised s out err =>
    exact ⟨_, .result (.raised s out err, m') hspends, fun again h => by simp only [Run.andThen, h]⟩
  | crashed why =>
    exact ⟨_, .result (.crashed why, m') hspends, fun again h => by simp only [Run.andThen, h]⟩
  | done r =>
    refine ⟨_, (hnext r m' hspends.1).map (g := fun p => (p.1.after r, p.2)) fun p hp => ?_,
      fun again h => by simp only [Run.andThen, h]⟩
    simpa [Engine.Spends] using hp

/-- A part of a command, run after other parts of it. -/
theorem part_spends {part c : Command} {m' : Machine} {f : Again → Run}
    (h : Inquiry e.Answers (e.Lighter · ⟨.command part, stdin, m'⟩) (e.Spends (e.commandsLeft m')) f)
    (hsize : part.size < c.size) (hle : e.commandsLeft m' ≤ e.commandsLeft m) :
    Inquiry e.Answers (e.Lighter · ⟨.command c, stdin, m⟩) (e.Spends (e.commandsLeft m)) f := by
  refine h.mono (fun i hi => ?_) fun r hr => hr.mono hle
  simp only [Engine.Lighter, Task.rank, Task.size] at hi ⊢
  omega

theorem runCommand_inquiry (c : Command) : ∀ (stdin : String) (m : Machine),
    Inquiry e.Answers (e.Lighter · ⟨.command c, stdin, m⟩) (e.Spends (e.commandsLeft m))
      fun again => e.runCommand again c stdin m := by
  -- inside a command that was counted it only matters what is left
  have inside : ∀ {part : Command} {stdin m n},
      Inquiry e.Answers (e.Lighter · ⟨.command part, stdin, m⟩) (e.Spends (e.commandsLeft m))
        (fun again => e.runCommand again part stdin m) → e.commandsLeft m ≤ n →
      e.Within (fun i => e.commandsLeft i.machine ≤ n) n fun again => e.runCommand again part stdin m :=
    fun h hle => h.mono (fun _ hi => Nat.le_trans hi.le hle) fun _ hr => Nat.le_trans hr.1 hle
  induction c with
  | simple c =>
    intro stdin m
    have hsimple := runSimple_within (e := e) false c stdin m.count.noteStart
    refine counted_spends (hsimple.mono (fun i hi => ?_) fun _ hr => hr)
    rcases hi with hlighter | hover
    · exact hlighter.le
    · exact Nat.le_of_eq (Job.handsOver?_called hover e).2.2
  | block body rs ih =>
    intro stdin m
    exact counted_spends (recorded_within (redirected_within (Nat.le_refl _) fun _ _ _ =>
      inside (ih _ _) (Nat.le_refl _)))
  | ifThen c body ih =>
    intro stdin m
    refine counted_spends ?_
    split
    · exact .result _ (Nat.le_refl _)
    · exact recorded_within (inside (ih _ _) (Nat.le_refl _))
    · exact .result _ (Nat.le_refl _)
  | ifElse c body other ih ih' =>
    intro stdin m
    refine counted_spends ?_
    split
    · exact .result _ (Nat.le_refl _)
    · exact recorded_within (inside (ih _ _) (Nat.le_refl _))
    · exact recorded_within (inside (ih' _ _) (Nat.le_refl _))
  | loop head body ih =>
    intro stdin m
    refine counted_spends (recorded_within (runLoop_within (Nat.le_refl _) (fun m' hle => ?_) head))
    exact inside (ih stdin m') hle
  | pipe left right _ _ =>
    intro stdin m
    have hstages := runStages_inquiry (e := e) m.state.child (left.stages ++ right.stages)
      ⟨Text.toBytes stdin, "", 0⟩ m.host
    refine (hstages.mono ?_ fun _ h => h).map fun _ _ => .of_le (Nat.le_refl _) rfl
    rintro ⟨_, stdin', _, host⟩ ⟨⟨s, hs, rfl⟩, rfl⟩
    have hsize : s.size < (Command.pipe left right).size := by
      simp only [Command.size]
      rcases List.mem_append.mp hs with hs | hs
      · have := Command.size_le_of_mem_stages hs
        omega
      · have := Command.size_le_of_mem_stages hs
        omega
    exact .inr ⟨Nat.le_refl _, .inr ⟨rfl, hsize⟩⟩
  | both left right ih ih' =>
    intro stdin m
    refine andThen_spends (part_spends (ih stdin m) ?_ (Nat.le_refl _)) fun r m' hle =>
      part_spends (ih' stdin m') ?_ hle
    all_goals
      simp only [Command.size]
      omega
  | andThen left right ih ih' =>
    intro stdin m
    refine andThen_spends (part_spends (ih stdin m) ?_ (Nat.le_refl _)) fun r m' hle => ?_
    · simp only [Command.size]
      omega
    · split
      · refine part_spends (ih' stdin m') ?_ hle
        simp only [Command.size]
        omega
      · exact .result _ (.of_le hle rfl)
  | orElse left right ih ih' =>
    intro stdin m
    refine andThen_spends (part_spends (ih stdin m) ?_ (Nat.le_refl _)) fun r m' hle => ?_
    · simp only [Command.size]
      omega
    · split
      · exact .result _ (.of_le hle rfl)
      · refine part_spends (ih' stdin m') ?_ hle
        simp only [Command.size]
        omega

theorem runLine_inquiry (text stdin : String) (m : Machine) :
    Inquiry e.Answers (e.Lighter · ⟨.line text, stdin, m⟩) (e.Spends (e.commandsLeft m))
      fun again => e.runLine again text stdin m := by
  unfold Engine.runLine
  split
  · exact .result _ (.of_le (Nat.le_refl _) rfl)
  · -- expanding the line is not counted
    have hsame : e.commandsLeft (m.pass text.utf8ByteSize) = e.commandsLeft m := rfl
    dsimp only
    split
    · exact .result _ (.of_le (Nat.le_refl _) rfl)
    · exact .result _ (.of_le (Nat.le_refl _) rfl)
    · refine (runCommand_inquiry _ stdin (m.pass text.utf8ByteSize)).mono (fun i hi => ?_) fun _ hr => hr
      simp only [Engine.Lighter, Task.rank, hsame] at hi ⊢
      omega

end

/-! ## Levels -/

/-- Run a job, given how to run the jobs that come up on the way. -/
def Engine.level (e : Engine) (again : Again) (j : Job) : Run :=
  match j.task with
  | .line text => e.runLine again text j.stdin j.machine
  | .command c => e.runCommand again c j.stdin j.machine
  | .called c => e.runSimple again true c j.stdin j.machine
  | .script script start params => e.runScript again script start params j.stdin j.machine

theorem Engine.run_perform_succ (e : Engine) (levels : Nat) (j : Job) :
    Again.run (e.perform (levels + 1)) j = e.level (e.perform levels) j := by
  obtain ⟨task, stdin, m⟩ := j
  cases task <;> rfl

/-- **Every job that comes up is lighter, unless a called command hands over to another.** Less is left of the
budget of commands, or the task is further down, or the command is smaller. -/
theorem Engine.level_inquiry (e : Engine) (j : Job) :
    Inquiry e.Answers (fun i => e.Lighter i j ∨ j.handsOver? = some i) (e.Charges j)
      fun again => e.level again j := by
  obtain ⟨task, stdin, m⟩ := j
  cases task with
  | line text => exact (runLine_inquiry text stdin m).mono (fun _ hi => .inl hi) fun _ hr => hr
  | command c => exact (runCommand_inquiry c stdin m).mono (fun _ hi => .inl hi) fun _ hr => hr
  | called c => exact runSimple_within true c stdin m
  | script script start params =>
    refine (runScript_inquiry script start params stdin m).mono ?_ fun _ hr => hr
    rintro ⟨_, stdin', m'⟩ ⟨hle, text, rfl⟩
    exact .inl (.inr ⟨hle, .inl (by simp [Task.rank])⟩)

end BatchShell
