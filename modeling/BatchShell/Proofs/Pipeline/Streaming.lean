import BatchShell.Proofs.Engine.Transparency

/-!
# Programs as stages of a pipeline

A stage that is one program and nothing else is started at once, on bytes (`Engine.runStage_program`). Every other
stage is run as a command, which counts it, opens its redirections and dispatches its name. Both ways fill in the
loop letters and look the name up for themselves, so they could come to different decisions.

They do in one case. The dispatcher prints what follows `ECHO` and a sign such as `.` or `/` before it looks any
file up; a stage looks for a file only. If an executable file has such a name, the stage runs it
(`Engine.stage_runs_echo_file`). For all other names the two ways give the same output, errors and status and make
the same request (`Engine.streaming_agrees_iff`).
-/
namespace BatchShell

/-- Whatever programs write can be read as text without loss. -/
def Runner.WritesText (runner : Runner) : Prop :=
  ∀ request interrupted files, ∃ text, (runner request interrupted files).stdout = Text.toBytes text

theorem stageProgram?_simple {m : Machine} {c : SimpleCommand} {program : String} {args : List String} :
    stageProgram? m (.simple c) = some (program, args) ↔
      c.redirections = [] ∧ m.resolve (m.fill c.name) = .program program ∧ args = c.args.map m.fill := by
  have hfill : Expansion.fillLoopVars m.host.files m.state.cwd m.state.loops = m.fill := rfl
  unfold Machine.resolve
  by_cases hredirections : c.redirections = []
  · simp only [stageProgram?, hfill, hredirections, List.isEmpty_nil, Bool.not_true, Bool.false_eq_true, if_false,
      true_and]
    cases Resolution.find m.host.files m.state.env m.state.cwd (m.fill c.name) with
    | program path => simp [eq_comm]
    | _ => simp
  · simp [stageProgram?, hredirections]

/-- The empty name means nothing. -/
theorem Machine.name_ne_empty_of_resolve {m : Machine} {name program : String}
    (h : m.resolve name = .program program) : name ≠ "" := by
  rintro rfl
  have hempty : m.resolve "" = .notFound := rfl
  rw [hempty] at h
  cases h

section

variable (e : Engine) (again : Again) {m : Machine} {c : SimpleCommand} {program : String} {args : List String}

/-- A program that is a stage is started without further ado. -/
theorem Engine.runStage_program (h : stageProgram? m (.simple c) = some (program, args)) (stdin : Bytes) :
    e.runStage again (.simple c) stdin m =
      some ((e.streamProgram program args stdin m.noteStart).1,
        (e.streamProgram program args stdin m.noteStart).2.host) := by
  simp only [runStage, h]

/-- Counting a command changes nothing that a program sees. -/
theorem Engine.streamProgram_count (m : Machine) (program : String) (args : List String) (stdin : Bytes) :
    (e.streamProgram program args stdin m.count.noteStart).1 =
        (e.streamProgram program args stdin m.noteStart).1 ∧
      (e.streamProgram program args stdin m.count.noteStart).2.host =
        (e.streamProgram program args stdin m.noteStart).2.host := ⟨rfl, rfl⟩

/-- A program's text survives being read and written again. -/
theorem Engine.stage_result_streamProgram (h : e.runner.WritesText) (program : String) (args : List String)
    (stdin : Bytes) (m : Machine) :
    (e.streamProgram program args stdin m).1.result.stage = (e.streamProgram program args stdin m).1 := by
  obtain ⟨text, htext⟩ :=
    h ⟨program, args.map dequote, m.state.cwd, m.state.env.visible, stdin⟩ m.host.interrupted m.host.files
  simp only [Engine.streamProgram, StageResult.result, Result.stage, htext, Text.ofBytes_toBytes]

/-- Dispatching a name that starts with no `ECHO` and means a program runs that program. -/
theorem Engine.dispatch_program {name raw : String} (called : Bool) (hecho : Builtin.echoText? name = none)
    (hresolve : m.resolve name = .program program) (stdin : String) :
    e.dispatch again called name args raw stdin m =
      some (.done (e.streamProgram program args (Text.toBytes stdin) m).1.result,
        (e.streamProgram program args (Text.toBytes stdin) m).2) := by
  unfold Machine.resolve at hresolve
  simp only [dispatch, hecho, hresolve, runProgram]

/-- Whatever files there are, a name that is `ECHO` and a sign prints what follows. -/
theorem Engine.runCommand_echo {text : String} (hredirections : c.redirections = [])
    (hecho : Builtin.echoText? (m.fill c.name) = some text) (hbreak : m.host.interrupted = false)
    (hbudget : m.state.commandCount < e.limits.commands) (stdin : String) :
    e.runCommand again (.simple c) stdin m =
      some (.done (Builtin.printLine (text ++ m.fill c.rawArgs)), m.count.noteStart.withStatus 0) := by
  have hname : m.fill c.name ≠ "" := by
    intro hempty
    rw [hempty] at hecho
    cases hecho
  rw [e.runCommand_unredirected again hredirections hname, counted_start hbreak hbudget, dispatch, hecho]
  rfl

end

/-- **A streamed program is a dispatched one, unless its name starts with `ECHO` and a sign.** Take a stage that is a
program, where no break was requested and commands are left, and a runner that writes text. Both ways of running it
come to an end, and the streamed one makes exactly the request that the name, the arguments, the directory, the
variables and the input ask for. Output, errors and status are the same and the requests are the same (and the
whole host) if and only if the name is not `ECHO` and a sign with a text behind it; otherwise the command prints
that text, and makes no request. -/
theorem Engine.streaming_agrees_iff (e : Engine) (again : Again) (m : Machine) (c : SimpleCommand) (stdin : String)
    (program : String) (args : List String) (hstage : stageProgram? m (.simple c) = some (program, args))
    (hbreak : m.host.interrupted = false) (hbudget : m.state.commandCount < e.limits.commands)
    (htext : e.runner.WritesText) :
    ∃ streamed host result m',
      e.runStage again (.simple c) (Text.toBytes stdin) m = some (streamed, host) ∧
      e.runCommand again (.simple c) stdin m = some (.done result, m') ∧
      host.requests = ⟨program, args.map dequote, m.state.cwd, m.state.env.visible, Text.toBytes stdin⟩ ::
        m.host.requests ∧
      (result.stage = streamed ∧ m'.host.requests = host.requests ↔ Builtin.echoText? (m.fill c.name) = none) ∧
      (Builtin.echoText? (m.fill c.name) = none → m'.host = host) ∧
      ∀ text, Builtin.echoText? (m.fill c.name) = some text →
        result = Builtin.printLine (text ++ m.fill c.rawArgs) ∧ m'.host.requests = m.host.requests := by
  obtain ⟨hredirections, hresolve, rfl⟩ := stageProgram?_simple.mp hstage
  have hstream := e.runStage_program again hstage (Text.toBytes stdin)
  cases hecho : Builtin.echoText? (m.fill c.name) with
  | none =>
    have hresolve' : m.count.noteStart.resolve (m.fill c.name) = .program program := hresolve
    have hcommand := e.runCommand_unredirected again hredirections (Machine.name_ne_empty_of_resolve hresolve) stdin
    rw [Engine.counted_start hbreak hbudget, e.dispatch_program again false hecho hresolve' stdin] at hcommand
    obtain ⟨hsame, hhost⟩ := e.streamProgram_count m program (c.args.map m.fill) (Text.toBytes stdin)
    refine ⟨_, _, _, _, hstream, hcommand, rfl, ⟨fun _ => rfl, fun _ => ⟨?_, ?_⟩⟩, fun _ => ?_, ?_⟩
    · rw [e.stage_result_streamProgram htext, hsame]
    · exact congrArg Host.requests hhost
    · exact hhost
    · intro text h
      cases h
  | some text =>
    have hcommand := e.runCommand_echo again hredirections hecho hbreak hbudget stdin
    refine ⟨_, _, _, _, hstream, hcommand, rfl, ⟨fun h => ?_, fun h => ?_⟩, fun h => ?_, ?_⟩
    · -- the stage made one request more
      have hlength := congrArg List.length h.2
      exact absurd hlength (by simp [Engine.streamProgram, Machine.noteStart, Machine.count, Machine.withState,
        Machine.withStatus])
    · cases h
    · cases h
    · rintro _ ⟨⟩
      exact ⟨rfl, rfl⟩

/-- A machine with one executable file in its working directory. -/
def Machine.withTool (name : String) : Machine :=
  ⟨State.initial .empty "/",
    ⟨⟨[([name], .file ⟨.empty, true, false⟩)], [], "", false⟩, fun _ => .epoch, false, [], 0⟩⟩

/-- An engine whose programs print a text. -/
def Engine.printing (text : String) : Engine :=
  ⟨.standard, fun _ _ files => ⟨Text.toBytes text, [], .exited 0, false, files⟩, .never⟩

/-- An ordinary name, with a quoted argument. -/
theorem Engine.streaming_agrees_tool :
    ∃ streamed host result m',
      (Engine.printing "ran\n").runStage (fun _ _ _ => none) (.simple ⟨"tool", ["\"a b\""], " \"a b\"", []⟩)
          (Text.toBytes "in\n") (.withTool "tool") = some (streamed, host) ∧
      (Engine.printing "ran\n").runCommand (fun _ _ _ => none) (.simple ⟨"tool", ["\"a b\""], " \"a b\"", []⟩) "in\n"
          (.withTool "tool") = some (.done result, m') ∧
      result.stage = streamed ∧ m'.host = host := by
  have hstage : stageProgram? (.withTool "tool") (.simple ⟨"tool", ["\"a b\""], " \"a b\"", []⟩) =
      some ("/tool", ["\"a b\""]) := by decide +kernel
  have hecho : Builtin.echoText? (Machine.fill (.withTool "tool") "tool") = none := by decide +kernel
  obtain ⟨streamed, host, result, m', hstream, hcommand, -, hagree, hhost, -⟩ :=
    Engine.streaming_agrees_iff (.printing "ran\n") (fun _ _ _ => none) (.withTool "tool")
      ⟨"tool", ["\"a b\""], " \"a b\"", []⟩ "in\n" _ _ hstage rfl (by decide) (fun _ _ _ => ⟨_, rfl⟩)
  exact ⟨streamed, host, result, m', hstream, hcommand, (hagree.mpr hecho).1, hhost hecho⟩

/-- A file named `echo.x` that can be executed: as a stage it runs, as a command `echo.x hi` prints a text. -/
theorem Engine.stage_runs_echo_file :
    ((Engine.printing "ran\n").runStage (fun _ _ _ => none) (.simple ⟨"echo.x", ["hi"], " hi", []⟩) []
        (.withTool "echo.x")).map (fun r => (Text.ofBytes r.1.stdout, r.2.requests.length)) = some ("ran\n", 1) ∧
      ((Engine.printing "ran\n").runCommand (fun _ _ _ => none) (.simple ⟨"echo.x", ["hi"], " hi", []⟩) ""
        (.withTool "echo.x")).map (fun r => (r.1, r.2.host.requests.length)) =
          some (.done ⟨"x hi\n", "", 0⟩, 0) := by
  have hname : Machine.fill (.withTool "echo.x") "echo.x" = "echo." ++ "x" := by decide +kernel
  have hecho := (congrArg Builtin.echoText? hname).trans (Builtin.echoText?_echo "x")
  refine ⟨by decide +kernel, ?_⟩
  rw [Engine.runCommand_echo _ _ rfl hecho rfl (by decide)]
  decide +kernel

end BatchShell
