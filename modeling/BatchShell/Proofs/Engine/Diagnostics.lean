import BatchShell.Proofs.Engine.Unwinding
import BatchShell.Proofs.Redirection.Descriptors

/-!
# Where a diagnostic is written

A label that is not there and scripts nested too deeply are complained about where the signal is raised, and the
text goes up with the signal (`Signal.attached`); other signals are raised without text, the limit on commands
among them. Whatever runs on the way up may put text in front of it. Only redirections of the errors take it away,
so where no command has any, the errors of what ended with a signal end in the text that it was raised with
(`Engine.perform_carries`).

`Carries keep before run` says this of a traced run that began with the log `before`. The condition `keep` stands
for the redirections around it, which are not among the events of the run itself: `Carries.counted` settles it when
the command with these redirections starts.
-/
namespace BatchShell

/-- The complaint that goes with a signal from where it is raised. -/
def Signal.attached : Signal → String
  | .labelNotFound label => labelNotFoundText label
  | .recursionLimit depth => recursionLimitText depth
  | .goto _ | .exit _ _ | .interrupted | .executionLimit _ => ""

/-- The complaint that goes with an ending. -/
def Ending.attached : Ending → String
  | .status _ | .crashed _ => ""
  | .signal s => s.attached

/-- Do all of these redirections leave the errors where they go? -/
def keepErrors (rs : List Redirection) : Bool := rs.all fun r => r.handle != 2 || r.op == .input

/-- The redirections of a command itself. -/
def Command.redirections : Command → List Redirection
  | .simple c => c.redirections
  | .block _ rs => rs
  | _ => []

/-- No command that started sends its errors elsewhere. -/
def KeepErrors (events : List Event) : Prop :=
  ∀ c, Event.started c ∈ events → keepErrors c.redirections = true

theorem KeepErrors.append_iff {events more : List Event} :
    KeepErrors (events ++ more) ↔ KeepErrors events ∧ KeepErrors more := by
  simp only [KeepErrors, List.mem_append, or_imp, forall_and]

/-- The log grew from `before` to `after`. If the errors were left alone, what was added to them ends in the
complaint of the ending. -/
def Carried (keep : Prop) (before after : Trace) (ending : Ending) : Prop :=
  ∃ more text, after.events = before.events ++ more ∧ after.err = before.err ++ text ∧
    (keep → KeepErrors more → ∃ front, text = front ++ ending.attached)

namespace Carried

variable {keep : Prop} {before t after : Trace} {n : Status} {s : Signal} {ending : Ending}

/-- An ending without complaint. -/
theorem plain (hplain : ending.attached = "") (more : List Event) (text : String)
    (hevents : after.events = before.events ++ more) (herr : after.err = before.err ++ text) :
    Carried keep before after ending :=
  ⟨more, text, hevents, herr, fun _ _ => ⟨text, by rw [hplain, String.append_empty]⟩⟩

theorem nothing (t : Trace) (n : Status) : Carried keep t t (.status n) :=
  .plain rfl [] "" (List.append_nil _).symm String.append_empty.symm

theorem write (t : Trace) (out err : String) (n : Status) : Carried keep t (t.write out err) (.status n) :=
  .plain rfl [] err (List.append_nil _).symm rfl

/-- A signal is raised after its complaint was written. -/
theorem raise (t : Trace) (s : Signal) :
    Carried keep t ((t.write "" s.attached).note (.raised s)) (.signal s) :=
  ⟨[.raised s], s.attached, rfl, rfl, fun _ _ => ⟨"", String.empty_append.symm⟩⟩

/-- Nothing is written with such an ending. -/
theorem quiet (t : Trace) (event : Event) (hplain : ending.attached = "") : Carried keep t (t.note event) ending :=
  .plain hplain [event] "" rfl String.append_empty.symm

theorem trans (h : Carried keep before t (.status n)) (hmore : Carried keep t after ending) :
    Carried keep before after ending := by
  obtain ⟨more, text, hevents, herr, -⟩ := h
  obtain ⟨more', text', hevents', herr', hlast⟩ := hmore
  refine ⟨more ++ more', text ++ text', ?_, ?_, fun hkeep hall => ?_⟩
  · rw [hevents', hevents, List.append_assoc]
  · rw [herr', herr, String.append_assoc]
  · obtain ⟨front, hfront⟩ := hlast hkeep (KeepErrors.append_iff.mp hall).2
    exact ⟨text ++ front, by rw [hfront, String.append_assoc]⟩

/-- The signal was taken up by the frame of a script. -/
theorem handled (h : Carried keep before t ending) (event : Event) (n : Status) :
    Carried keep before (t.note event) (.status n) := by
  obtain ⟨more, text, hevents, herr, -⟩ := h
  exact .plain rfl (more ++ [event]) text (by rw [Trace.note, hevents, List.append_assoc]) herr

/-- A command that started is among the events from there on, so its redirections need no condition of their own. -/
theorem started {c : Command} (h : Carried (keepErrors c.redirections = true) (t.note (.started c)) after ending) :
    Carried keep t after ending := by
  obtain ⟨more, text, hevents, herr, hlast⟩ := h
  refine ⟨.started c :: more, text, ?_, herr, fun _ hall => hlast (hall c (by simp)) fun c hc => ?_⟩
  · rw [hevents, Trace.note, List.append_assoc]
    rfl
  · exact hall c (by simp [hc])

end Carried

/-! ## Plans -/

namespace Plan

theorem stderr_setSink {handle : Nat} (h : handle ≠ 2) (p : Plan) (sink : Sink) :
    (p.setSink handle sink).stderr = p.stderr := by
  match handle, h with
  | 0, _ | 1, _ | _ + 3, _ => rfl

theorem stderr_take {s : State} {files opened : FileTree} {r : Redirection} {o : Opening}
    (hopens : Opens s files r o opened) (hkeep : (r.handle != 2 || r.op == .input) = true) (p : Plan) :
    (p.take o).stderr = p.stderr := by
  have hother (hout : r.op ≠ .input) : r.handle ≠ 2 := by simpa [hout] using hkeep
  cases hopens with
  | noInput device => rfl
  | input plain read => rfl
  | inputHandle => rfl
  | discard out device => exact stderr_setSink (hother out) ..
  | output out plain opens => exact stderr_setSink (hother out) ..
  | copy out =>
    simp only [take]
    split
    · exact stderr_setSink (hother out) ..
    · rfl

/-- Redirections that leave the errors alone make a plan that does. -/
theorem stderr_prepare {rs : List Redirection} {plan : Plan} {s : State} {files opened : FileTree}
    (hkeep : keepErrors rs = true) (h : prepare s files rs = (.ok plan, opened)) : plan.stderr = .stderr := by
  obtain ⟨os, hopens, rfl⟩ := addAll_eq_ok_iff.mp h
  have hall (p : Plan) : (os.foldl take p).stderr = p.stderr := by
    clear h
    induction hopens generalizing p with
    | nil => rfl
    | cons head tail ih =>
      obtain ⟨hfirst, hrest⟩ := Bool.and_eq_true_iff.mp hkeep
      rw [List.foldl_cons, ih hrest, stderr_take head hfirst]
  exact hall standard

/-- Where the errors are left alone, they come last. -/
theorem stderr_deliver {p : Plan} (h : p.stderr = .stderr) (r : Result) (files : FileTree) :
    ∃ front, (p.deliver r files).1.stderr = front ++ r.stderr := by
  rw [deliver, h]
  generalize route p.stdout r.stdout ⟨"", "", r.status⟩ files = routed
  by_cases hempty : r.stderr = ""
  · exact ⟨routed.1.stderr, by simp [route, hempty]⟩
  · exact ⟨routed.1.stderr, by simp [route, hempty]⟩

end Plan

/-! ## One level -/

/-- However a traced run from the log `before` ends, the log grew as it should. -/
def Carries (keep : Prop) (before : Trace) (run : TracedRun) : Prop :=
  ∀ ending m t, run = some (ending, m, t) → Carried keep before t ending

/-- Every task is such a run, whatever the log before it. -/
def Teller.Carries (tell : Teller) : Prop :=
  ∀ keep task stdin m t, BatchShell.Carries keep t (tell task stdin m t)

namespace Carries

variable {e : Engine} {tell : Teller} {m : Machine} {t before : Trace} {stdin : String} {run : TracedRun}
  {keep : Prop}

theorem ended {ending : Ending} {t' : Trace} (h : Carried keep before t' ending) :
    Carries keep before (some (ending, m, t')) := by
  intro ending m t heq
  cases heq
  exact h

theorem finish (r : Result) (m : Machine) (t : Trace) : Carries keep t (.finish r m t) :=
  .ended (.write t r.stdout r.stderr r.status)

theorem raise {s : Signal} (hs : s.attached = "") (m : Machine) (t : Trace) : Carries keep t (.raise s m t) :=
  .ended (.quiet t _ hs)

theorem crash (why : Crash) (m : Machine) (t : Trace) : Carries keep t (.crash why m t) :=
  .ended (.quiet t _ rfl)

/-- An outcome whose signal, if it has one, has no complaint. -/
theorem ofOutcome {o : Outcome} (ho : o.ending.attached = "") (m : Machine) (t : Trace) :
    Carries keep t (.ofOutcome o m t) := by
  cases o with
  | done r => exact .finish r m t
  | raised s out err => exact .raise ho m t
  | crashed why => exact .crash why m t

/-- What was written before a run stands in front of what it writes. -/
theorem after {n : Status} (hw : Carried keep before t (.status n)) (h : Carries keep t run) :
    Carries keep before run := fun _ _ _ heq => hw.trans (h _ _ _ heq)

theorem leave (h : Carries keep t run) (f : Machine → Machine) : Carries keep t (run.leave f) := by
  intro ending m t' heq
  obtain ⟨⟨ending', m', t''⟩, hrun, hpair⟩ := Option.map_eq_some_iff.mp heq
  cases hpair
  exact h _ _ _ hrun

theorem recorded (h : Carries keep t run) : Carries keep t (TracedRun.recorded run) := by
  intro ending m t' heq
  obtain ⟨⟨ending', m', t''⟩, hrun, hpair⟩ := Option.map_eq_some_iff.mp heq
  cases ending' <;> cases hpair <;> exact h _ _ _ hrun

theorem andThen {next : Status → Machine → Trace → TracedRun} (h : Carries keep t run)
    (hnext : ∀ n m t, Carries keep t (next n m t)) : Carries keep t (run.andThen next) := by
  intro ending m t' heq
  match run, h, heq with
  | some (.status n, m', t''), h, heq => exact (h _ _ _ rfl).trans (hnext n m' t'' _ _ _ heq)
  | some (.signal s, m', t''), h, heq =>
    cases heq
    exact h _ _ _ rfl
  | some (.crashed why, m', t''), h, heq =>
    cases heq
    exact h _ _ _ rfl

theorem counted (c : Command) {body : Machine → Trace → TracedRun}
    (h : ∀ m t, Carries (keepErrors c.redirections = true) t (body m t)) :
    Carries keep t (e.traceCounted c m t body) := by
  unfold Engine.traceCounted
  split
  · exact .raise rfl m t
  · split
    · exact .raise rfl _ t
    · intro ending m' t' heq
      exact (h _ _ _ _ _ heq).started

/-- What a command wrote goes through its plan as a whole, complaint included. -/
theorem redirected {rs : List Redirection} {body : String → Machine → Trace → TracedRun}
    (h : ∀ stdin m t, Carries True t (body stdin m t)) :
    Carries (keepErrors rs = true) t (traceRedirected rs stdin m t body) := by
  unfold traceRedirected
  split
  · exact .finish _ _ t
  · rename_i plan files hprepare
    intro ending m' t' heq
    obtain ⟨⟨ending', m'', segment⟩, hbody, hpair⟩ := Option.map_eq_some_iff.mp heq
    obtain ⟨more, text, hevents, herr, hlast⟩ := h _ _ _ _ _ _ hbody
    by_cases hcrash : ∃ why, ending' = .crashed why
    · obtain ⟨why, rfl⟩ := hcrash
      cases hpair
      exact .plain rfl more "" hevents String.append_empty.symm
    have hdelivered : (ending', plan.deliverSegment t m'' segment) = (ending, m', t') := by
      cases ending' with
      | crashed why => exact absurd ⟨why, rfl⟩ hcrash
      | _ => exact hpair
    obtain ⟨rfl, hlog⟩ := Prod.mk.inj hdelivered
    obtain rfl : (plan.deliverSegment t m'' segment).2 = t' := by rw [hlog]
    refine ⟨more, (plan.deliver ⟨segment.out, segment.err, 0⟩ m''.host.files).1.stderr, hevents, rfl,
      fun hkeep hall => ?_⟩
    obtain ⟨front, hfront⟩ := hlast trivial hall
    obtain ⟨routed, hrouted⟩ := Plan.stderr_deliver (Plan.stderr_prepare hkeep hprepare)
      ⟨segment.out, segment.err, 0⟩ m''.host.files
    have hsegment : segment.err = text := herr.trans String.empty_append
    exact ⟨routed ++ front, by rw [hrouted, hsegment, hfront, String.append_assoc]⟩

/-! ### Simple commands -/

theorem callLabel (h : tell.Carries) (label : String) (args : List String) :
    Carries keep t (traceLabel tell label args stdin m t) := by
  unfold traceLabel
  split
  · exact .finish _ m t
  · split
    · exact .finish _ m t
    · exact h _ _ stdin m t

theorem callBatch (h : tell.Carries) (path : String) (args : List String) :
    Carries keep t (traceBatch tell path args stdin m t) := by
  unfold traceBatch
  split
  · exact .finish _ m t
  · exact h _ _ stdin m t

theorem runCall (h : tell.Carries) (raw : String) : Carries keep t (traceCall tell raw stdin m t) := by
  unfold traceCall
  dsimp only
  split
  · exact .crash _ m t
  · split
    · exact .finish _ _ t
    · exact .finish _ _ t
    · split
      · exact callLabel h _ _
      · exact h _ _ stdin _ t
    · exact h _ _ stdin _ t

/-- The signals of internal commands have no complaint. -/
theorem runBuiltin (h : tell.Carries) (builtin : Builtin) (args : List String) (raw : String) :
    Carries keep t (e.traceBuiltin tell builtin args raw stdin m t) := by
  have unsignalled {o : Outcome} (ho : ∀ signal, o.ending ≠ .signal signal) : o.ending.attached = "" := by
    cases o with
    | raised s out err => exact absurd rfl (ho s)
    | _ => rfl
  cases builtin with
  | call => exact runCall h raw
  | exit => exact .raise rfl _ t
  | goto =>
    refine .ofOutcome ?_ _ t
    unfold Builtin.runGoto
    split
    · rfl
    · split <;> rfl
  | set =>
    simp only [Engine.traceBuiltin, Engine.runBuiltin, Option.bind_some]
    exact .ofOutcome (unsignalled (Builtin.runSet_unsignalled m.state raw stdin)) _ t
  | cd =>
    simp only [Engine.traceBuiltin, Engine.runBuiltin, Option.bind_some]
    exact .ofOutcome (unsignalled (Builtin.runCd_unsignalled m.host.files m.state raw)) _ t
  | _ => exact .finish _ _ t

theorem dispatch (h : tell.Carries) (called : Bool) (name : String) (args : List String) (raw : String) :
    Carries keep t (e.traceDispatch tell called name args raw stdin m t) := by
  unfold Engine.traceDispatch
  split
  · exact .finish _ m t
  · split
    · exact runBuiltin h _ args raw
    · split
      · exact callBatch h _ args
      · exact (callBatch h _ args).andThen fun n m t => .raise rfl m t
    · exact .finish _ _ t
    · exact .finish _ m t

theorem runSimple (h : tell.Carries) (called : Bool) (c : SimpleCommand) :
    Carries (keepErrors c.redirections = true) t (e.traceSimple tell called c stdin m t) := by
  unfold Engine.traceSimple
  refine redirected fun stdin m t => ?_
  split
  · exact .finish _ m t
  · exact (dispatch h called _ _ _).recorded

/-! ### Loops and pipelines -/

theorem iterate {limit : Nat} {letter : Char} {body : Machine → Trace → TracedRun}
    (hbody : ∀ m t, Carries keep t (body m t)) (remaining : Nat) :
    ∀ (values : Loop.Values) (n : Status) (m : Machine) (t : Trace),
      Carries keep t (traceIterate limit letter body remaining values n m t) := by
  induction remaining with
  | zero =>
    intro values n m t
    unfold traceIterate
    split
    · exact .ended (.nothing t n)
    · exact .finish _ m t
    · contradiction
  | succ remaining ih =>
    intro values n m t
    unfold traceIterate
    split
    · exact .ended (.nothing t n)
    · contradiction
    · rename_i heq
      cases heq
      exact (hbody _ t).andThen fun n m t => ih _ n m t

theorem runLoop {head : LoopHead} {body : Machine → Trace → TracedRun} (hbody : ∀ m t, Carries keep t (body m t)) :
    Carries keep t (e.traceLoop tell head body m t) := by
  unfold Engine.traceLoop
  split
  · intro _ _ _ heq
    cases heq
  · rename_i failed m' heq
    have hfailed := (Ends.of_loopValues heq).2 failed rfl
    cases failed with
    | raised s out err => exact absurd rfl (hfailed s)
    | _ => exact .ofOutcome rfl _ t
  · rename_i values complaints m' _
    have hturns : Carries keep (t.write "" complaints) (traceIterate e.limits.iterations head.letter body
        e.limits.iterations values m'.state.status (m'.withState m'.state.pushLoop) (t.write "" complaints)) :=
      iterate hbody _ values _ _ _
    exact (hturns.after (.write t "" complaints 0)).leave fun m => m.withState (m.state.popLoop m'.state.phase)

/-- A pipeline ends with a result, never with a signal. -/
theorem runPipeline (again : Again) (stages : List Command) (c : Command) :
    Carries keep t ((e.runPipeline again stages stdin m).bind fun (o, m) =>
      TracedRun.ofOutcome o m (t.note (.started c))) := by
  unfold Engine.runPipeline
  intro ending m' t' heq
  rw [Option.bind_map] at heq
  obtain ⟨⟨r, host⟩, -, hend⟩ := Option.bind_eq_some_iff.mp heq
  cases hend
  exact .plain rfl [.started c] _ rfl rfl

/-! ### Commands, lines and scripts -/

/-- Every form of command, by induction. -/
theorem runCommand (h : tell.Carries) (c : Command) : ∀ (keep : Prop) (stdin : String) (m : Machine) (t : Trace),
    Carries keep t (e.traceCommand tell c stdin m t) := by
  induction c with
  | simple c =>
    intro keep stdin m t
    exact counted _ fun m t => runSimple h false c
  | block body rs ih =>
    intro keep stdin m t
    exact counted _ fun m t => (redirected fun stdin m t => ih True stdin m t).recorded
  | ifThen c body ih =>
    intro keep stdin m t
    refine counted _ fun m t => ?_
    split
    · exact .crash _ m t
    · exact (ih _ stdin m t).recorded
    · exact .finish _ m t
  | ifElse c body other ih ih' =>
    intro keep stdin m t
    refine counted _ fun m t => ?_
    split
    · exact .crash _ m t
    · exact (ih _ stdin m t).recorded
    · exact (ih' _ stdin m t).recorded
  | loop head body ih =>
    intro keep stdin m t
    exact counted _ fun m t => (runLoop (ih _ stdin)).recorded
  | pipe left right _ _ =>
    intro keep stdin m t
    exact runPipeline _ _ _
  | both left right ih ih' =>
    intro keep stdin m t
    exact (ih keep stdin m t).andThen fun _ m t => ih' keep stdin m t
  | andThen left right ih ih' =>
    intro keep stdin m t
    refine (ih keep stdin m t).andThen fun n m t => ?_
    split
    · exact ih' keep stdin m t
    · exact .ended (.nothing t n)
  | orElse left right ih ih' =>
    intro keep stdin m t
    refine (ih keep stdin m t).andThen fun n m t => ?_
    split
    · exact .ended (.nothing t n)
    · exact ih' keep stdin m t

theorem runLine (h : tell.Carries) (line : String) : Carries keep t (e.traceLine tell line stdin m t) := by
  unfold Engine.traceLine
  split
  · exact .crash _ m t
  · dsimp only
    split
    · exact .finish _ _ t
    · exact .finish _ _ t
    · exact runCommand h _ keep stdin _ t

/-- The lines of a frame, which complains of a label that is not there when it raises the signal. -/
theorem runLines (h : tell.Carries) (steps : Nat) :
    ∀ (m : Machine) (t : Trace), Carries keep t (traceLines tell stdin steps m t) := by
  induction steps with
  | zero =>
    intro m t _ _ _ heq
    cases heq
  | succ steps ih =>
    intro m t
    unfold traceLines
    rcases m.state.nextLine? with _ | ⟨index, line⟩
    · exact .ended (.nothing t _)
    · dsimp only
      generalize m.withState (m.state.goTo (index + 1)) = m
      cases line.kind with
      | command =>
        dsimp only
        generalize echoedLine m.host.now m.state line.text = echoed
        generalize m.pass m.state.promptTemplate.length = m
        have hline : Carries keep t (tell (.line line.text) stdin m (t.write echoed "")) :=
          (h keep _ stdin m _).after (.write t echoed "" 0)
        generalize tell (.line line.text) stdin m (t.write echoed "") = run at hline ⊢
        rcases run with _ | ⟨ending, m', t'⟩
        · intro _ _ _ heq
          cases heq
        have hlog : Carried keep t t' ending := hline _ _ _ rfl
        cases ending with
        | status n => exact (ih m' t').after hlog
        | crashed why => exact .ended hlog
        | signal s =>
          cases s with
          | goto label =>
            have htaken (n : Status) : Carried keep t (t'.note (.handled (.goto label))) (.status n) :=
              hlog.handled _ n
            dsimp only
            split
            · exact .ended (htaken _)
            · rcases m'.state.labelTarget? label with _ | target
              · exact .ended ((htaken 0).trans (.raise _ (.labelNotFound label)))
              · exact (ih _ _).after (htaken 0)
          | exit status batchOnly =>
            cases batchOnly with
            | true => exact .ended (hlog.handled _ status)
            | false => exact .ended hlog
          | _ => exact .ended hlog
      | _ => exact ih m t

theorem runScript (h : tell.Carries) (script : Script) (start : Nat) (params : Params) :
    Carries keep t (e.traceScript tell script start params stdin m t) := by
  unfold Engine.traceScript
  dsimp only
  split
  · exact .ended (.raise t (.recursionLimit m.state.calls.length))
  · exact (runLines h _ _ t).leave _

end Carries

/-- Level by level, every task writes a complaint with the signal that it ends with. -/
theorem Engine.perform_carries (e : Engine) (levels : Nat) : (e.trace levels : Teller).Carries := by
  induction levels with
  | zero =>
    intro keep task stdin m t _ _ _ heq
    cases heq
  | succ levels ih =>
    intro keep task stdin m t
    cases task with
    | line text => exact .runLine ih text
    | command c => exact .runCommand ih c keep stdin m t
    | called c =>
      intro ending m' t' heq
      exact (Carries.runSimple ih true c ending m' t' heq).started
    | script script start params => exact .runScript ih script start params

end BatchShell
