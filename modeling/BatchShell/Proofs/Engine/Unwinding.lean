import BatchShell.Proofs.Engine.Frames
import BatchShell.Proofs.Engine.Trace

/-!
# Unwinding loses nothing

The engine carries text upwards by hand, with results and with signals; the traced engine writes it to a
log. `Mirrors before run traced` says that the two agree: they end in the same way with the same machine,
and the text that `run` carries is what `traced` appended to the log `before`. One rule for each construct
says that it keeps this, so a text put in front twice, or not at all, would break its rule:

* `Mirrors.andThen` for `&`, `&&` and `||`, `Mirrors.iterate` for loops, `Mirrors.runLines` for scripts;
* `Mirrors.redirected`, for which the place where text goes must not depend on how a command ended.

`Engine.perform_mirrors` puts them together by induction on the levels, and on the command inside a level.
-/
namespace BatchShell

/-! ## Events in order -/

/-- The last of settled events is the start of a command or the end of a signal. -/
theorem Settled.last {events : List Event} {event : Event} (h : Settled (events ++ [event])) :
    (∃ c, event = .started c) ∨ ∃ s, event = .handled s := by
  generalize heq : events ++ [event] = all at h
  have hlast : all.getLast? = some event := by simp [← heq]
  cases h with
  | nil => simp at hlast
  | started c _ => exact .inl ⟨c, by simpa using hlast.symm⟩
  | @handled _ s _ _ => exact .inr ⟨s, by simpa using hlast.symm⟩

/-- While a signal is on its way, the events are not settled. -/
theorem Settled.not_raised {events : List Event} {s : Signal} : ¬ Settled (events ++ [.raised s]) := by
  intro h
  obtain ⟨_, h⟩ | ⟨_, h⟩ := h.last <;> cases h

/-- Nor are they when the interpreter has broken off. -/
theorem Settled.not_crashed {events : List Event} {why : Crash} : ¬ Settled (events ++ [.crashed why]) := by
  intro h
  obtain ⟨_, h⟩ | ⟨_, h⟩ := h.last <;> cases h

namespace Ending.Orderly

variable {ending : Ending} {events : List Event}

theorem status_iff (h : ending.Orderly events) : (∃ n, ending = .status n) ↔ Settled events := by
  cases ending with
  | status n => exact ⟨fun _ => h, fun _ => ⟨n, rfl⟩⟩
  | signal s =>
    obtain ⟨before, -, rfl⟩ := h
    constructor
    · rintro ⟨n, hn⟩
      cases hn
    · intro hsettled
      exact absurd hsettled Settled.not_raised
  | crashed why =>
    obtain ⟨before, -, rfl⟩ := h
    constructor
    · rintro ⟨n, hn⟩
      cases hn
    · intro hsettled
      exact absurd hsettled Settled.not_crashed

/-- What came last tells how something stopped. -/
theorem unique (h : ending.Orderly events) (stop : Ending) (hstop : stop.Orderly events) (hstops : stop.stops) :
    ending = stop := by
  have hlast {before before' : List Event} {event event' : Event}
      (heq : before ++ [event] = before' ++ [event']) : event = event' :=
    List.singleton_inj.mp (List.append_inj' heq rfl).2
  cases stop with
  | status n => cases hstops
  | signal s =>
    obtain ⟨before, -, rfl⟩ := hstop
    cases ending with
    | status n => exact absurd h Settled.not_raised
    | signal s' =>
      obtain ⟨before', -, heq⟩ := h
      cases hlast heq
      rfl
    | crashed why =>
      obtain ⟨before', -, heq⟩ := h
      cases hlast heq
  | crashed why =>
    obtain ⟨before, -, rfl⟩ := hstop
    cases ending with
    | status n => exact absurd h Settled.not_crashed
    | signal s =>
      obtain ⟨before', -, heq⟩ := h
      cases hlast heq
    | crashed why' =>
      obtain ⟨before', -, heq⟩ := h
      cases hlast heq
      rfl

theorem signal_iff (h : ending.Orderly events) (s : Signal) :
    ending = .signal s ↔ ∃ before, Settled before ∧ events = before ++ [.raised s] :=
  ⟨fun hs => by rwa [hs] at h, fun hs => h.unique (.signal s) hs rfl⟩

theorem crashed_iff (h : ending.Orderly events) (why : Crash) :
    ending = .crashed why ↔ ∃ before, Settled before ∧ events = before ++ [.crashed why] :=
  ⟨fun hs => by rwa [hs] at h, fun hs => h.unique (.crashed why) hs rfl⟩

end Ending.Orderly

/-! ## What is added to a log -/

/-- Between two logs `out` and `err` were written, and settled events went on to an ending. -/
structure Wrote (before after : Trace) (out err : String) (ending : Ending) : Prop where
  out : after.out = before.out ++ out
  err : after.err = before.err ++ err
  order : Settled before.events → ending.Orderly after.events

namespace Wrote

variable {before t after : Trace} {out err : String} {n : Status} {s : Signal} {ending : Ending}

theorem write (t : Trace) (out err : String) (n : Status) : Wrote t (t.write out err) out err (.status n) :=
  ⟨rfl, rfl, fun h => h⟩

theorem nothing (t : Trace) (n : Status) : Wrote t t "" "" (.status n) :=
  ⟨String.append_empty.symm, String.append_empty.symm, fun h => h⟩

theorem status (h : Wrote before t out err (.status n)) (n' : Status) :
    Wrote before t out err (.status n') :=
  ⟨h.out, h.err, h.order⟩

theorem trans {o e : String} (h : Wrote before t out err (.status n)) (hmore : Wrote t after o e ending) :
    Wrote before after (out ++ o) (err ++ e) ending := by
  refine ⟨?_, ?_, fun hsettled => hmore.order (h.order hsettled)⟩
  · rw [hmore.out, h.out, String.append_assoc]
  · rw [hmore.err, h.err, String.append_assoc]

theorem started {c : Command} (h : Wrote (t.note (.started c)) after out err ending) :
    Wrote t after out err ending :=
  ⟨h.out, h.err, fun hsettled => h.order (hsettled.started c)⟩

theorem raised (h : Wrote before t out err (.status n)) (s : Signal) :
    Wrote before (t.note (.raised s)) out err (.signal s) :=
  ⟨h.out, h.err, fun hsettled => ⟨t.events, h.order hsettled, rfl⟩⟩

theorem crashed (h : Wrote before t out err (.status n)) (why : Crash) :
    Wrote before (t.note (.crashed why)) out err (.crashed why) :=
  ⟨h.out, h.err, fun hsettled => ⟨t.events, h.order hsettled, rfl⟩⟩

/-- The frame takes up the signal that was raised last. -/
theorem handled (h : Wrote before t out err (.signal s)) (hframe : s.endsAtFrame = true) (n : Status) :
    Wrote before (t.note (.handled s)) out err (.status n) := by
  refine ⟨h.out, h.err, fun hsettled => ?_⟩
  obtain ⟨events, hevents, heq⟩ := h.order hsettled
  have : (t.note (.handled s)).events = events ++ [.raised s, .handled s] := by simp [Trace.note, heq]
  show Settled _
  rw [this]
  exact hevents.handled hframe

end Wrote

/-- A run and a traced run from the log `before` end alike: what the one carries, the other has written. -/
inductive Mirrors (before : Trace) : Run → TracedRun → Prop where
  | endless : Mirrors before none none
  | ended {ending : Ending} {out err : String} {m : Machine} {t : Trace} (h : Wrote before t out err ending) :
    Mirrors before (some (ending.outcome out err, m)) (some (ending, m, t))

/-- Every task ends alike, whatever the log before it. -/
def Teller.Mirrors (tell : Teller) (again : Again) : Prop :=
  ∀ task stdin m t, BatchShell.Mirrors t (again task stdin m) (tell task stdin m t)

namespace Mirrors

variable {e : Engine} {again : Again} {tell : Teller} {m : Machine} {t : Trace} {stdin : String}
  {run : Run} {traced : TracedRun}

theorem finish (r : Result) (m : Machine) (t : Trace) :
    Mirrors t (some (.done r, m)) (.finish r m t) :=
  .ended (.write t r.stdout r.stderr r.status)

theorem raise (s : Signal) (m : Machine) (t : Trace) : Mirrors t (some (.raise s, m)) (.raise s m t) :=
  .ended ((Wrote.nothing t 0).raised s)

theorem crash (why : Crash) (m : Machine) (t : Trace) :
    Mirrors t (some (.crashed why, m)) (.crash why m t) :=
  .ended ((Wrote.nothing t 0).crashed why)

/-- A status without text. -/
theorem quiet (n : Status) (m : Machine) (t : Trace) :
    Mirrors t (some (.done ⟨"", "", n⟩, m)) (some (.status n, m, t)) :=
  .ended (.nothing t n)

theorem started {c : Command} (h : Mirrors (t.note (.started c)) run traced) : Mirrors t run traced := by
  cases h with
  | endless => exact .endless
  | ended h => exact .ended h.started

/-- From an empty log, the text in the log is the text of the outcome. -/
theorem run_eq (h : Mirrors .empty run traced) : run = TracedRun.run traced := by
  cases h with
  | endless => rfl
  | @ended ending out err m t h =>
    have hout : t.out = out := h.out.trans String.empty_append
    have herr : t.err = err := h.err.trans String.empty_append
    simp only [TracedRun.run, Option.map_some, hout, herr]

/-- The text of a result goes in front of what runs after it, and is in the log already. -/
theorem after {before : Trace} {r : Result} {n : Status}
    (hw : Wrote before t r.stdout r.stderr (.status n)) (h : Mirrors t run traced) :
    Mirrors before (run.map fun (o, m) => (o.after r, m)) traced := by
  cases h with
  | endless => exact .endless
  | @ended ending out err m t' h =>
    have hafter : (ending.outcome out err).after r = ending.outcome (r.stdout ++ out) (r.stderr ++ err) := by
      cases ending <;> rfl
    simp only [Option.map_some, hafter]
    exact .ended (hw.trans h)

theorem andThen {next : Result → Machine → Run} {next' : Status → Machine → Trace → TracedRun}
    (h : Mirrors t run traced) (hnext : ∀ r m t', Mirrors t' (next r m) (next' r.status m t')) :
    Mirrors t (Run.andThen run next) (traced.andThen next') := by
  cases h with
  | endless => exact .endless
  | @ended ending out err m t' h =>
    cases ending with
    | status n => exact after (r := ⟨out, err, n⟩) h (hnext ⟨out, err, n⟩ m t')
    | signal s => exact .ended h
    | crashed why => exact .ended h

theorem recorded (h : Mirrors t run traced) : Mirrors t (Run.recorded run) (TracedRun.recorded traced) := by
  cases h with
  | endless => exact .endless
  | @ended ending out err m t' h =>
    cases ending with
    | status n => exact .ended h
    | signal s => exact .ended h
    | crashed why => exact .ended h

theorem leave (f : Machine → Machine) (h : Mirrors t run traced) :
    Mirrors t (run.map fun (o, m) => (o, f m)) (traced.leave f) := by
  cases h with
  | endless => exact .endless
  | ended h => exact .ended h

theorem counted (c : Command) {body : Machine → Run} {body' : Machine → Trace → TracedRun}
    (h : ∀ m t, Mirrors t (body m) (body' m t)) :
    Mirrors t (e.counted m body) (e.traceCounted c m t body') := by
  unfold Engine.counted Engine.traceCounted
  split
  · exact .raise _ m t
  · split
    · exact .raise _ m.count t
    · exact started (h _ _)

end Mirrors

/-! ## Redirections -/

namespace Plan

theorem route_status (sink : Sink) (text : String) (r : Result) (n : Status) (files : FileTree) :
    route sink text { r with status := n } files =
      ({ (route sink text r files).1 with status := n }, (route sink text r files).2) := by
  unfold route
  split
  · rfl
  · split
    · rfl
    · rfl
    · rfl
    · split <;> rfl

theorem deliver_status (p : Plan) (out err : String) (n : Status) (files : FileTree) :
    p.deliver ⟨out, err, n⟩ files =
      ({ (p.deliver ⟨out, err, 0⟩ files).1 with status := n }, (p.deliver ⟨out, err, 0⟩ files).2) := by
  have hout := route_status p.stdout out ⟨"", "", 0⟩ n files
  have herr := route_status p.stderr err (route p.stdout out ⟨"", "", 0⟩ files).1 n
    (route p.stdout out ⟨"", "", 0⟩ files).2
  simp only [deliver]
  rw [hout, herr]

/-- Where the text of an outcome goes does not depend on how it ended, unless it broke off. -/
theorem deliverOutcome_outcome (p : Plan) {ending : Ending} (h : ∀ why, ending ≠ .crashed why) (out err : String)
    (files : FileTree) :
    p.deliverOutcome (ending.outcome out err) files =
      let texts := (p.deliver ⟨out, err, 0⟩ files).1
      (ending.outcome texts.stdout texts.stderr, (p.deliver ⟨out, err, 0⟩ files).2) := by
  cases ending with
  | status n =>
    simp only [deliverOutcome, Ending.outcome]
    rw [deliver_status p out err n files]
  | signal s => rfl
  | crashed why => exact absurd rfl (h why)

end Plan

@[simp] theorem Ending.ending_outcome (out err : String) (ending : Ending) :
    (ending.outcome out err).ending = ending := by
  cases ending <;> rfl

theorem Builtin.runSet_unsignalled (s : State) (raw stdin : String) (signal : Signal) :
    (runSet s raw stdin).1.ending ≠ .signal signal := by
  unfold runSet
  extract_lets text plain body
  split
  · unfold setArithmetic
    split
    · simp
    · dsimp only
      split <;> simp
  · simp [plain]
  · split
    · simp [plain]
    · split <;> simp [plain]

theorem Builtin.runCd_unsignalled (files : FileTree) (s : State) (raw : String) (signal : Signal) :
    (runCd files s raw).1.ending ≠ .signal signal := by
  unfold runCd
  split
  · simp
  · split
    · simp
    · split <;> simp

namespace Mirrors

variable {e : Engine} {again : Again} {tell : Teller} {m : Machine} {t : Trace} {stdin : String}

theorem redirected {rs : List Redirection} {body : String → Machine → Run}
    {body' : String → Machine → Trace → TracedRun}
    (h : ∀ stdin m t, Mirrors t (body stdin m) (body' stdin m t)) :
    Mirrors t (redirected rs stdin m body) (traceRedirected rs stdin m t body') := by
  unfold BatchShell.redirected traceRedirected
  rcases Plan.prepare m.state m.host.files rs with ⟨complaint | plan, files⟩
  · exact .finish _ _ t
  · dsimp only
    have hbody := h (plan.stdin.getD stdin) (m.withFiles files) t.segment
    generalize body (plan.stdin.getD stdin) (m.withFiles files) = run at hbody ⊢
    generalize body' (plan.stdin.getD stdin) (m.withFiles files) t.segment = traced at hbody ⊢
    cases hbody with
    | endless => exact .endless
    | @ended ending out err m' t' hw =>
      -- the segment holds the text of the outcome, which is what the plan delivers
      have hout : t'.out = out := hw.out.trans String.empty_append
      have herr : t'.err = err := hw.err.trans String.empty_append
      have hdelivered (h : ∀ why, ending ≠ .crashed why) :
          Mirrors t (some ((plan.deliverOutcome (ending.outcome out err) m'.host.files).1,
              m'.withFiles (plan.deliverOutcome (ending.outcome out err) m'.host.files).2))
            (some (ending, plan.deliverSegment t m' t')) := by
        rw [plan.deliverOutcome_outcome h, Plan.deliverSegment, hout, herr]
        exact .ended ⟨rfl, rfl, hw.order⟩
      cases ending with
      | status n => exact hdelivered (by simp)
      | signal s => exact hdelivered (by simp)
      | crashed why =>
        have hlost : Wrote t { t with events := t'.events } "" "" (.crashed why) :=
          ⟨String.append_empty.symm, String.append_empty.symm, hw.order⟩
        exact .ended hlost

/-! ## Simple commands -/

theorem callLabel (h : tell.Mirrors again) (label : String) (args : List String) :
    Mirrors t (callLabel again label args stdin m) (traceLabel tell label args stdin m t) := by
  unfold BatchShell.callLabel traceLabel
  rcases m.state.calls with _ | ⟨frame, outer⟩
  · exact .finish _ m t
  · dsimp only
    rcases frame.script.findLabel? label with _ | index
    · exact .finish _ m t
    · exact h _ stdin m t

theorem callBatch (h : tell.Mirrors again) (path : String) (args : List String) :
    Mirrors t (callBatch again path args stdin m) (traceBatch tell path args stdin m t) := by
  unfold BatchShell.callBatch traceBatch
  rcases m.host.files.readText? path with _ | source
  · exact .finish _ m t
  · exact h _ stdin m t

/-- The signal that ends the running script takes the text of the batch file along. -/
theorem chainBatch (h : tell.Mirrors again) (path : String) (args : List String) :
    Mirrors t (chainBatch again path args stdin m) (traceChain tell path args stdin m t) := by
  have hcall : Mirrors t (BatchShell.callBatch again path args stdin m)
      (traceBatch tell path args stdin m t) := callBatch h path args
  unfold BatchShell.chainBatch traceChain
  generalize BatchShell.callBatch again path args stdin m = run at hcall ⊢
  generalize traceBatch tell path args stdin m t = traced at hcall ⊢
  cases hcall with
  | endless => exact .endless
  | @ended ending out err m' t' hw =>
    cases ending with
    | status n => exact .ended (hw.raised (.exit n true))
    | signal s => exact .ended hw
    | crashed why => exact .ended hw

theorem runCall (h : tell.Mirrors again) (raw : String) :
    Mirrors t (runCall again raw stdin m) (traceCall tell raw stdin m t) := by
  unfold BatchShell.runCall traceCall
  dsimp only
  rcases Expansion.expandPercent m.host.files m.host.now m.state (Text.trimStart raw) with why | line
  · exact .crash why m t
  · dsimp only
    generalize m.pass _ = m
    rcases Command.ofTokens? (Token.scan line) with complaint | _ | c
    · exact .finish _ m t
    · exact .finish _ m t
    · cases c with
      | simple c =>
        dsimp only
        split
        · exact callLabel h c.name c.args
        · exact h (.called c) stdin m t
      | _ => exact h _ stdin m t

/-- What runs no other task; if it ends with a signal, there is no text with it. -/
theorem ofOutcome {o : Outcome} (h : ∀ s out err, o = .raised s out err → out = "" ∧ err = "") :
    Mirrors t (some (o, m)) (.ofOutcome o m t) := by
  cases o with
  | done r => exact .finish r m t
  | raised s out err =>
    obtain ⟨rfl, rfl⟩ := h s out err rfl
    exact .raise s m t
  | crashed why => exact .crash why m t

/-- An internal command that changes the state and raises no signal. -/
theorem leave_unsignalled {r : Outcome × State} (h : ∀ signal, r.1.ending ≠ .signal signal) :
    Mirrors t (some (r.1, m.withState r.2)) (.ofOutcome r.1 (m.withState r.2) t) :=
  ofOutcome fun s _ _ heq => absurd (congrArg Outcome.ending heq) (h s)

/-- An internal command, other than `CALL`, raises a signal without text, and runs no task. -/
theorem runBuiltin (h : tell.Mirrors again) (builtin : Builtin) (args : List String) (raw : String) :
    Mirrors t (e.runBuiltin again builtin args raw stdin m)
      (e.traceBuiltin tell builtin args raw stdin m t) := by
  cases builtin with
  | set =>
    simp only [Engine.runBuiltin, Engine.traceBuiltin, Option.bind_some]
    exact leave_unsignalled (Builtin.runSet_unsignalled m.state raw stdin)
  | cd =>
    simp only [Engine.runBuiltin, Engine.traceBuiltin, Option.bind_some]
    exact leave_unsignalled (Builtin.runCd_unsignalled m.host.files m.state raw)
  | call => exact runCall h raw
  | exit => exact .raise _ _ t
  | goto =>
    refine ofOutcome fun s out err heq => ?_
    unfold Builtin.runGoto at heq
    split at heq
    · cases heq
    · split at heq
      · cases heq
        exact ⟨rfl, rfl⟩
      · cases heq
  | _ => exact .finish _ _ t

theorem dispatch (h : tell.Mirrors again) (called : Bool) (name : String) (args : List String)
    (raw : String) : Mirrors t (e.dispatch again called name args raw stdin m)
      (e.traceDispatch tell called name args raw stdin m t) := by
  unfold Engine.dispatch Engine.traceDispatch
  rcases Builtin.echoText? name with _ | text
  · dsimp only
    cases Resolution.find m.host.files m.state.env m.state.cwd name with
    | builtin builtin => exact runBuiltin h builtin args raw
    | batch path =>
      dsimp only
      split
      · exact callBatch h path args
      · exact chainBatch h path args
    | program path => exact .finish _ _ t
    | notFound => exact .finish _ m t
  · exact .finish _ m t

theorem runSimple (h : tell.Mirrors again) (called : Bool) (c : SimpleCommand) :
    Mirrors t (e.runSimple again called c stdin m) (e.traceSimple tell called c stdin m t) := by
  unfold Engine.runSimple Engine.traceSimple
  refine redirected fun stdin m t => ?_
  split
  · exact .finish _ m t
  · exact (dispatch h called _ _ _).recorded

/-! ## Loops -/

/-- The children of a traced run are the runs themselves. -/
theorem again_eq (h : tell.Mirrors again) : tell.again = again := by
  funext task stdin m
  exact (h task stdin m .empty).run_eq.symm

theorem iterate {limit : Nat} {letter : Char} {body : Machine → Run} {body' : Machine → Trace → TracedRun}
    (hbody : ∀ m t, Mirrors t (body m) (body' m t)) {before : Trace} (remaining : Nat) :
    ∀ (values : Loop.Values) (result : Result) (m : Machine) (t : Trace),
      Wrote before t result.stdout result.stderr (.status result.status) →
        Mirrors before (iterate limit letter body remaining values result m)
          (traceIterate limit letter body' remaining values result.status m t) := by
  induction remaining with
  | zero =>
    intro values result m t hw
    unfold BatchShell.iterate traceIterate
    rcases values.next? with _ | next
    · exact .ended hw
    · have hlimit := hw.trans (.write t "" (tooManyIterations limit) 1)
      rw [String.append_empty] at hlimit
      exact .ended hlimit
  | succ remaining ih =>
    intro values result m t hw
    unfold BatchShell.iterate traceIterate
    rcases values.next? with _ | ⟨value, rest⟩
    · exact .ended hw
    · have hrun := hbody (m.withState (m.state.bindLoop (Loop.bind letter value))) t
      dsimp only
      generalize body (m.withState (m.state.bindLoop (Loop.bind letter value))) = run at hrun ⊢
      generalize body' (m.withState (m.state.bindLoop (Loop.bind letter value))) t = traced at hrun ⊢
      cases hrun with
      | endless => exact .endless
      | @ended ending out err m' t' hmore =>
        cases ending with
        | status n => exact ih rest (result.append ⟨out, err, n⟩) m' t' (hw.trans hmore)
        | signal s => exact .ended (hw.trans hmore)
        | crashed why => exact .ended (hw.trans hmore)

theorem runLoop (h : tell.Mirrors again) {head : LoopHead} {body : Machine → Run}
    {body' : Machine → Trace → TracedRun} (hbody : ∀ m t, Mirrors t (body m) (body' m t)) :
    Mirrors t (e.runLoop again head body m) (e.traceLoop tell head body' m t) := by
  unfold Engine.runLoop Engine.traceLoop
  rw [again_eq h]
  rcases hvalues : e.loopValues again head m with _ | ⟨failed | ⟨values, complaints⟩, m'⟩
  · exact .endless
  · refine ofOutcome fun s out err heq => ?_
    exact absurd (congrArg Outcome.ending heq) ((Ends.of_loopValues hvalues).2 failed rfl s)
  · have hvalues : Mirrors t (BatchShell.iterate e.limits.iterations head.letter body e.limits.iterations
        values ⟨"", complaints, m'.state.status⟩ (m'.withState m'.state.pushLoop)) _ :=
      iterate hbody _ values _ _ _ (.write t "" complaints _)
    exact hvalues.leave fun m => m.withState (m.state.popLoop m'.state.phase)

/-! ## Commands and lines -/

theorem runPipeline (h : tell.Mirrors again) (stages : List Command) :
    Mirrors t (e.runPipeline again stages stdin m)
      ((e.runPipeline tell.again stages stdin m).bind fun (o, m) => TracedRun.ofOutcome o m t) := by
  rw [again_eq h]
  unfold Engine.runPipeline
  rcases e.runStages again m.state.child ⟨Text.toBytes stdin, "", 0⟩ m.host stages with _ | ⟨r, host⟩
  · exact .endless
  · exact .finish r.result _ t

/-- Every form of command, by induction: the parts write one after another. -/
theorem runCommand (h : tell.Mirrors again) (c : Command) : ∀ (stdin : String) (m : Machine) (t : Trace),
    Mirrors t (e.runCommand again c stdin m) (e.traceCommand tell c stdin m t) := by
  induction c with
  | simple c =>
    intro stdin m t
    exact counted _ fun m t => runSimple h false c
  | block body rs ih =>
    intro stdin m t
    exact counted _ fun m t => (redirected ih).recorded
  | ifThen c body ih =>
    intro stdin m t
    refine counted _ fun m t => ?_
    rcases c.holds e.matching.glob m.host.files m.state with why | _ | _
    · exact .crash why m t
    · exact .finish _ m t
    · exact (ih stdin m t).recorded
  | ifElse c body other ih ih' =>
    intro stdin m t
    refine counted _ fun m t => ?_
    rcases c.holds e.matching.glob m.host.files m.state with why | _ | _
    · exact .crash why m t
    · exact (ih' stdin m t).recorded
    · exact (ih stdin m t).recorded
  | loop head body ih =>
    intro stdin m t
    exact counted _ fun m t => (runLoop h (ih stdin)).recorded
  | pipe left right _ _ =>
    intro stdin m t
    exact started (runPipeline h _)
  | both left right ih ih' =>
    intro stdin m t
    exact (ih stdin m t).andThen fun _ m t => ih' stdin m t
  | andThen left right ih ih' =>
    intro stdin m t
    refine (ih stdin m t).andThen fun r m t => ?_
    split
    · exact ih' stdin m t
    · exact .quiet r.status m t
  | orElse left right ih ih' =>
    intro stdin m t
    refine (ih stdin m t).andThen fun r m t => ?_
    split
    · exact .quiet r.status m t
    · exact ih' stdin m t

theorem runLine (h : tell.Mirrors again) (line : String) :
    Mirrors t (e.runLine again line stdin m) (e.traceLine tell line stdin m t) := by
  unfold Engine.runLine Engine.traceLine
  dsimp only
  rcases Expansion.expandTokens m.host.files m.host.now m.state (Token.scan line) with why | tokens
  · exact .crash why m t
  · dsimp only
    rcases Command.ofTokens? tokens with complaint | _ | c
    · exact .finish _ _ t
    · exact .finish _ _ t
    · exact runCommand h c stdin _ t

/-! ## Scripts -/

/-- The lines of a frame. `out` and `err` are in the log already. -/
theorem runLines (h : tell.Mirrors again) {before : Trace} (steps : Nat) :
    ∀ (out err : String) (m : Machine) (t : Trace), Wrote before t out err (.status 0) →
      Mirrors before (runLines again stdin steps out err m) (traceLines tell stdin steps m t) := by
  induction steps with
  | zero => intro out err m t _; exact .endless
  | succ steps ih =>
    intro out err m t hw
    unfold BatchShell.runLines traceLines
    rcases m.state.nextLine? with _ | ⟨index, line⟩
    · exact .ended (hw.status m.state.status)
    · dsimp only
      generalize m.withState (m.state.goTo (index + 1)) = m
      cases line.kind with
      | command =>
        dsimp only
        generalize echoedLine m.host.now m.state line.text = echoed
        generalize m.pass m.state.promptTemplate.length = m
        have hline := h (.line line.text) stdin m (t.write echoed "")
        generalize again (.line line.text) stdin m = run at hline ⊢
        generalize tell (.line line.text) stdin m (t.write echoed "") = traced at hline ⊢
        have hecho := hw.trans (.write t echoed "" 0)
        rw [String.append_empty] at hecho
        cases hline with
        | endless => exact .endless
        | @ended ending o er m' t' hmore =>
          have hall := hecho.trans hmore
          cases ending with
          | status n => exact ih _ _ m' t' (hall.status 0)
          | crashed why => exact .ended hall
          | signal s =>
            cases s with
            | goto label =>
              have htaken := hall.handled rfl
              dsimp only [Ending.outcome]
              split
              · exact .ended (htaken m'.state.status)
              · rcases m'.state.labelTarget? label with _ | target
                · have hmissing := (htaken 0).trans (.write _ "" (labelNotFoundText label) 0)
                  rw [String.append_empty] at hmissing
                  exact .ended (hmissing.raised _)
                · exact ih _ _ _ _ (htaken 0)
            | exit status batchOnly =>
              cases batchOnly with
              | true => exact .ended (hall.handled rfl status)
              | false => exact .ended hall
            | _ => exact .ended hall
      | _ => exact ih out err m t hw

theorem runScript (h : tell.Mirrors again) (script : Script) (start : Nat) (params : Params) :
    Mirrors t (e.runScript again script start params stdin m)
      (e.traceScript tell script start params stdin m t) := by
  unfold Engine.runScript Engine.traceScript
  dsimp only
  split
  · exact .ended ((Wrote.write t "" _ 0).raised _)
  · have hlines : Mirrors t (BatchShell.runLines again stdin (e.limits.scriptSteps script) "" ""
        (m.withState (m.state.pushCall script start params))) _ := runLines h _ "" "" _ t (.nothing t 0)
    exact hlines.leave fun after => after.withState (after.state.popCall m.state.phase)

end Mirrors

/-- Level by level, every task is mirrored by its traced run. -/
theorem Engine.perform_mirrors (e : Engine) (levels : Nat) :
    (e.trace levels : Teller).Mirrors (e.perform levels) := by
  induction levels with
  | zero => intro task stdin m t; exact .endless
  | succ levels ih =>
    intro task stdin m t
    cases task with
    | line text => exact .runLine ih text
    | command c => exact .runCommand ih c stdin m t
    | called c => exact .started (.runSimple ih true c)
    | script script start params => exact .runScript ih script start params

end BatchShell
