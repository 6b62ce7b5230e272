import BatchShell.Proofs.Engine.Ends

/-!
# The engine with a log

The engine hands its text upwards. Whatever runs several parts puts the text of one in front of the next,
and a signal takes the text along to where it is handled. The traced engine carries no text at all:

* every text is appended to the log of its stream at the moment it is written (`Trace.write`), among them
  the complaints of loops and the lines that a script echoes;
* what a command with redirections wrote is a segment of the log, and goes through the plan once, however
  the command ended (`traceRedirected`);
* a signal is a signal and nothing else (`TracedRun.raise`).

The log also has the events of the run. They are in order (`Ending.Orderly`) if no command starts while a
signal is on its way, nothing but the frame of a script stops one, and nothing happens after the interpreter
has broken off. What was written before that stays in the log, but no outcome carries it.
-/
namespace BatchShell

/-! ## Events -/

/-- What happens in a run, apart from its text. -/
inductive Event where
  | started (command : Command)
  | raised (signal : Signal)
  /-- The frame of a script takes a signal up: it jumps or ends. -/
  | handled (signal : Signal)
  | crashed (why : Crash)
  deriving DecidableEq

/-- Does the frame of a script take the signal up? -/
def Signal.endsAtFrame : Signal → Bool
  | .goto _ => true
  | .exit _ batchOnly => batchOnly
  | .labelNotFound _ | .recursionLimit _ | .interrupted | .executionLimit _ => false

/-- Events after which no signal is on its way: commands were started, and each signal was taken up by the
frame of a script before anything else happened. -/
inductive Settled : List Event → Prop where
  | nil : Settled []
  | started {events : List Event} (command : Command) (before : Settled events) :
    Settled (events ++ [.started command])
  | handled {events : List Event} {signal : Signal} (before : Settled events)
    (frame : signal.endsAtFrame = true) : Settled (events ++ [.raised signal, .handled signal])

/-- The events of something that ended: none, or just the signal with which it ended, is on its way, or the last
thing that happened is that it broke off. -/
def Ending.Orderly : Ending → List Event → Prop
  | .status _, events => Settled events
  | .signal s, events => ∃ before, Settled before ∧ events = before ++ [.raised s]
  | .crashed why, events => ∃ before, Settled before ∧ events = before ++ [.crashed why]

/-! ## The log -/

/-- What was written on each stream, and what happened. -/
structure Trace where
  out : String
  err : String
  events : List Event
  deriving DecidableEq

namespace Trace

def empty : Trace := ⟨"", "", []⟩

/-- Append to both streams. -/
def write (t : Trace) (out err : String) : Trace := ⟨t.out ++ out, t.err ++ err, t.events⟩

def note (t : Trace) (event : Event) : Trace := ⟨t.out, t.err, t.events ++ [event]⟩

/-- Begin a segment: nothing is written in it, and the events go on. -/
def segment (t : Trace) : Trace := ⟨"", "", t.events⟩

end Trace

/-- How something ended, what it changed, and the log after it. -/
abbrev TracedRun := Option (Ending × Machine × Trace)

/-- Runs a task with an input and adds to a log. -/
abbrev Teller := Task → String → Machine → Trace → TracedRun

/-- An ending with a text, which is lost if the interpreter broke off. -/
def Ending.outcome (out err : String) : Ending → Outcome
  | .status n => .done ⟨out, err, n⟩
  | .signal s => .raised s out err
  | .crashed why => .crashed why

/-- The outcome of a traced run that began with an empty log. -/
def TracedRun.run (traced : TracedRun) : Run :=
  traced.map fun (ending, m, t) => (ending.outcome t.out t.err, m)

/-- Run a task whose output somebody reads: the command of a loop or a stage of a pipeline. It has a log of
its own. -/
def Teller.again (tell : Teller) : Again := fun task stdin m => TracedRun.run (tell task stdin m .empty)

namespace TracedRun

/-- A result. -/
def finish (r : Result) (m : Machine) (t : Trace) : TracedRun :=
  some (.status r.status, m, t.write r.stdout r.stderr)

/-- A signal. -/
def raise (signal : Signal) (m : Machine) (t : Trace) : TracedRun :=
  some (.signal signal, m, t.note (.raised signal))

/-- The interpreter breaks off. -/
def crash (why : Crash) (m : Machine) (t : Trace) : TracedRun := some (.crashed why, m, t.note (.crashed why))

/-- What a command that runs no others ends with. -/
def ofOutcome (o : Outcome) (m : Machine) (t : Trace) : TracedRun :=
  match o with
  | .done r => finish r m t
  | .raised signal _ _ => raise signal m t
  | .crashed why => crash why m t

/-- Run something after a result. -/
def andThen (first : TracedRun) (next : Status → Machine → Trace → TracedRun) : TracedRun :=
  match first with
  | some (.status status, m, t) => next status m t
  | other => other

/-- Record the status when a result comes out. -/
def recorded (traced : TracedRun) : TracedRun :=
  traced.map fun (ending, m, t) =>
    match ending with
    | .status status => (ending, m.withStatus status, t)
    | .signal _ | .crashed _ => (ending, m, t)

/-- Change the machine afterwards. -/
def leave (traced : TracedRun) (f : Machine → Machine) : TracedRun :=
  traced.map fun (ending, m, t) => (ending, f m, t)

end TracedRun

/-! ## Simple commands -/

def Engine.traceCounted (e : Engine) (c : Command) (m : Machine) (t : Trace)
    (body : Machine → Trace → TracedRun) : TracedRun :=
  if m.host.interrupted then .raise .interrupted m t
  else if e.limits.commands < m.count.state.commandCount then
    .raise (.executionLimit e.limits.commands) m.count t
  else body m.count.noteStart (t.note (.started c))

def traceLabel (tell : Teller) (label : String) (args : List String) (stdin : String) (m : Machine)
    (t : Trace) : TracedRun :=
  match m.state.calls with
  | [] =>
    .finish (.failure "Invalid attempt to call batch label outside of batch script.\n") m t
  | frame :: _ =>
    match frame.script.findLabel? label with
    | none => .finish (.failure (labelNotFoundText label)) m t
    | some index => tell (.script frame.script (index + 1) (.ofCall label args)) stdin m t

def traceBatch (tell : Teller) (path : String) (args : List String) (stdin : String) (m : Machine)
    (t : Trace) : TracedRun :=
  match m.host.files.readText? path with
  | none => .finish (.failure Complaint.fileNotFound) m t
  | some source => tell (.script (.load path source) 0 (.ofCall path args)) stdin m t

/-- A batch file in place of the running script: when it has ended, that one is left. -/
def traceChain (tell : Teller) (path : String) (args : List String) (stdin : String) (m : Machine)
    (t : Trace) : TracedRun :=
  (traceBatch tell path args stdin m t).andThen fun status m t => .raise (.exit status true) m t

def traceCall (tell : Teller) (raw stdin : String) (m : Machine) (t : Trace) : TracedRun :=
  let text := Text.trimStart raw
  match Expansion.expandPercent m.host.files m.host.now m.state text with
  | .error why => .crash why m t
  | .ok line =>
    let m := m.pass text.length
    match Command.ofTokens? (Token.scan line) with
    | .error _ => .finish (.failure Complaint.badForm) m t
    | .ok none => .finish .ok m t
    | .ok (some (.simple c)) =>
      if c.name.toList.head? == some ':' then traceLabel tell c.name c.args stdin m t
      else tell (.called c) stdin m t
    | .ok (some c) => tell (.command c) stdin m t

/-- An internal command. All but `CALL` run no others. -/
def Engine.traceBuiltin (e : Engine) (tell : Teller) (builtin : Builtin) (args : List String) (raw stdin : String)
    (m : Machine) (t : Trace) : TracedRun :=
  match builtin with
  | .call => traceCall tell raw stdin m t
  | builtin =>
    (e.runBuiltin (fun _ _ _ => none) builtin args raw stdin m).bind fun (o, m) => TracedRun.ofOutcome o m t

def Engine.traceDispatch (e : Engine) (tell : Teller) (called : Bool) (name : String)
    (args : List String) (raw stdin : String) (m : Machine) (t : Trace) : TracedRun :=
  match Builtin.echoText? name with
  | some text => .finish (Builtin.printLine (text ++ raw)) m t
  | none =>
    match Resolution.find m.host.files m.state.env m.state.cwd name with
    | .builtin builtin => e.traceBuiltin tell builtin args raw stdin m t
    | .batch path =>
      if called || !m.state.inBatch then traceBatch tell path args stdin m t
      else traceChain tell path args stdin m t
    | .program path =>
      let (r, m) := e.runProgram path args stdin m
      .finish r m t
    | .notFound => .finish (.failureWith (Complaint.notRecognized name) notFoundStatus) m t

/-- Send a segment of the log where a plan says, and go on with the log before it. -/
def Plan.deliverSegment (plan : Plan) (before : Trace) (m : Machine) (segment : Trace) : Machine × Trace :=
  let (texts, files) := plan.deliver ⟨segment.out, segment.err, 0⟩ m.host.files
  (m.withFiles files, ⟨before.out ++ texts.stdout, before.err ++ texts.stderr, segment.events⟩)

/-- Something with redirections. The ending plays no part in where the segment goes, but a segment in which the
interpreter breaks off goes nowhere. -/
def traceRedirected (rs : List Redirection) (stdin : String) (m : Machine) (t : Trace)
    (body : String → Machine → Trace → TracedRun) : TracedRun :=
  match Plan.prepare m.state m.host.files rs with
  | (.error complaint, files) => .finish (.failure complaint) ((m.withFiles files).withStatus 1) t
  | (.ok plan, files) =>
    (body (plan.stdin.getD stdin) (m.withFiles files) t.segment).map fun (ending, m, segment) =>
      match ending with
      | .crashed _ => (ending, m, { t with events := segment.events })
      | .status _ | .signal _ => (ending, plan.deliverSegment t m segment)

def Engine.traceSimple (e : Engine) (tell : Teller) (called : Bool) (c : SimpleCommand) (stdin : String)
    (m : Machine) (t : Trace) : TracedRun :=
  let fill := Expansion.fillLoopVars m.host.files m.state.cwd m.state.loops
  let name := fill c.name
  let args := c.args.map fill
  let raw := fill c.rawArgs
  traceRedirected c.redirections stdin m t fun stdin m t =>
    if name.isEmpty then .finish (.unchanged m.state) m t
    else TracedRun.recorded (e.traceDispatch tell called name args raw stdin m t)

/-! ## Loops -/

def traceIterate (limit : Nat) (letter : Char) (body : Machine → Trace → TracedRun) (remaining : Nat)
    (values : Loop.Values) (status : Status) (m : Machine) (t : Trace) : TracedRun :=
  match values.next?, remaining with
  | none, _ => some (.status status, m, t)
  | some _, 0 => .finish (.failure (tooManyIterations limit)) m t
  | some (value, rest), remaining + 1 =>
    (body (m.withState (m.state.bindLoop (Loop.bind letter value))) t).andThen fun status m t =>
      traceIterate limit letter body remaining rest status m t

def Engine.traceLoop (e : Engine) (tell : Teller) (head : LoopHead) (body : Machine → Trace → TracedRun)
    (m : Machine) (t : Trace) : TracedRun :=
  match e.loopValues tell.again head m with
  | none => none
  | some (.error failed, m) => .ofOutcome failed m t
  | some (.ok (values, complaints), m) =>
    let phase := m.state.phase
    (traceIterate e.limits.iterations head.letter body e.limits.iterations values m.state.status
      (m.withState m.state.pushLoop) (t.write "" complaints)).leave fun m =>
        m.withState (m.state.popLoop phase)

/-! ## Commands, lines and scripts -/

def Engine.traceCommand (e : Engine) (tell : Teller) : Command → String → Machine → Trace → TracedRun
  | .simple c, stdin, m, t => e.traceCounted (.simple c) m t (e.traceSimple tell false c stdin)
  | .block body rs, stdin, m, t =>
    e.traceCounted (.block body rs) m t fun m t =>
      TracedRun.recorded (traceRedirected rs stdin m t (e.traceCommand tell body))
  | .ifThen c body, stdin, m, t =>
    e.traceCounted (.ifThen c body) m t fun m t =>
      match c.holds e.matching.glob m.host.files m.state with
      | .error why => .crash why m t
      | .ok true => TracedRun.recorded (e.traceCommand tell body stdin m t)
      | .ok false => .finish (.unchanged m.state) m t
  | .ifElse c body other, stdin, m, t =>
    e.traceCounted (.ifElse c body other) m t fun m t =>
      match c.holds e.matching.glob m.host.files m.state with
      | .error why => .crash why m t
      | .ok true => TracedRun.recorded (e.traceCommand tell body stdin m t)
      | .ok false => TracedRun.recorded (e.traceCommand tell other stdin m t)
  | .loop head body, stdin, m, t =>
    e.traceCounted (.loop head body) m t fun m t =>
      TracedRun.recorded (e.traceLoop tell head (e.traceCommand tell body stdin) m t)
  | .pipe left right, stdin, m, t =>
    (e.runPipeline tell.again (left.stages ++ right.stages) stdin m).bind fun (o, m) =>
      TracedRun.ofOutcome o m (t.note (.started (.pipe left right)))
  | .both left right, stdin, m, t =>
    (e.traceCommand tell left stdin m t).andThen fun _ m t => e.traceCommand tell right stdin m t
  | .andThen left right, stdin, m, t =>
    (e.traceCommand tell left stdin m t).andThen fun status m t =>
      if status == 0 then e.traceCommand tell right stdin m t else some (.status status, m, t)
  | .orElse left right, stdin, m, t =>
    (e.traceCommand tell left stdin m t).andThen fun status m t =>
      if status == 0 then some (.status status, m, t) else e.traceCommand tell right stdin m t

def Engine.traceLine (e : Engine) (tell : Teller) (line stdin : String) (m : Machine) (t : Trace) :
    TracedRun :=
  match Expansion.expandTokens m.host.files m.host.now m.state (Token.scan line) with
  | .error why => .crash why m t
  | .ok tokens =>
    let m := m.pass line.utf8ByteSize
    match Command.ofTokens? tokens with
    | .error _ => .finish ⟨"", Complaint.badForm, m.state.status⟩ m t
    | .ok none => .finish (.unchanged m.state) m t
    | .ok (some c) => e.traceCommand tell c stdin m t

/-- What a script shows of a line before it runs: the line under the prompt if echoing is on, and nothing of a line
that starts with `@`. -/
inductive Echoes (now : Nat → Ambient) (s : State) (line : String) : String → Prop where
  | shown (on : s.echo = true) (loud : ¬ ['@'] <+: (Text.trimStart line).toList) :
    Echoes now s line ("\n" ++ Expansion.expandPrompt now s.cwd ((s.env.get? "PROMPT").getD Expansion.defaultPrompt) ++
      Text.trimStart line ++ "\n")
  | off (off : s.echo = false) : Echoes now s line ""
  | quiet (quiet : ['@'] <+: (Text.trimStart line).toList) : Echoes now s line ""

theorem echoes_iff (now : Nat → Ambient) (s : State) (line text : String) :
    Echoes now s line text ↔ text = echoedLine now s line := by
  have hat : (Text.trimStart line).toList.head? = some '@' ↔ ['@'] <+: (Text.trimStart line).toList := by
    cases (Text.trimStart line).toList <;> simp [eq_comm]
  constructor
  · rintro (⟨on, loud⟩ | off | quiet)
    · simp [echoedLine, on, hat, loud, State.promptTemplate]
    · simp [echoedLine, off]
    · simp [echoedLine, hat.mpr quiet]
  · rintro rfl
    by_cases quiet : ['@'] <+: (Text.trimStart line).toList
    · simpa [echoedLine, hat.mpr quiet] using Echoes.quiet quiet
    · cases on : s.echo with
      | false => simpa [echoedLine, on] using Echoes.off on
      | true => simpa [echoedLine, on, hat, quiet, State.promptTemplate] using Echoes.shown on quiet

/-- The lines of the innermost frame. A line is echoed before it runs, and the signals that end at a frame
end here. -/
def traceLines (tell : Teller) (stdin : String) : Nat → Machine → Trace → TracedRun
  | 0, _, _ => none
  | steps + 1, m, t =>
    match m.state.nextLine? with
    | none => some (.status m.state.status, m, t)
    | some (index, line) =>
      let m := m.withState (m.state.goTo (index + 1))
      match line.kind with
      | .command =>
        let t := t.write (echoedLine m.host.now m.state line.text) ""
        let m := m.pass m.state.promptTemplate.length
        match tell (.line line.text) stdin m t with
        | none => none
        | some (.status _, m, t) => traceLines tell stdin steps m t
        | some (.signal (.goto label), m, t) =>
          let t := t.note (.handled (.goto label))
          if Signal.isEndOfFile label then some (.status m.state.status, m, t)
          else
            match m.state.labelTarget? label with
            | some target => traceLines tell stdin steps (m.withState (m.state.goTo target)) t
            | none => .raise (.labelNotFound label) m (t.write "" (labelNotFoundText label))
        | some (.signal (.exit status true), m, t) =>
          some (.status status, m.withStatus status, t.note (.handled (.exit status true)))
        | some (.signal signal, m, t) => some (.signal signal, m, t)
        | some (.crashed why, m, t) => some (.crashed why, m, t)
      | _ => traceLines tell stdin steps m t

def Engine.traceScript (e : Engine) (tell : Teller) (script : Script) (start : Nat) (params : Params)
    (stdin : String) (m : Machine) (t : Trace) : TracedRun :=
  let depth := m.state.calls.length
  if e.limits.callDepth ≤ depth then
    .raise (.recursionLimit depth) m (t.write "" (recursionLimitText depth))
  else
    (traceLines tell stdin (e.limits.scriptSteps script)
      (m.withState (m.state.pushCall script start params)) t).leave fun after =>
        after.withState (after.state.popCall m.state.phase)

/-- Run a task and add to the log, with at most `levels` levels of tasks. -/
def Engine.trace (e : Engine) : Nat → Teller
  | 0, _, _, _, _ => none
  | levels + 1, task, stdin, m, t =>
    match task with
    | .line text => e.traceLine (e.trace levels) text stdin m t
    | .command c => e.traceCommand (e.trace levels) c stdin m t
    | .called c => e.traceSimple (e.trace levels) true c stdin m (t.note (.started (.simple c)))
    | .script script start params => e.traceScript (e.trace levels) script start params stdin m t

end BatchShell
