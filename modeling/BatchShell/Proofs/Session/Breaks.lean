import BatchShell.Proofs.Engine.Hosts
import BatchShell.Proofs.Engine.Unwinding
import BatchShell.Proofs.Pipeline.Streaming
import BatchShell.Proofs.Session.Spending

/-!
# What becomes of a break

A break is a flag of the host. A command that finds it set is refused, and if that comes out of the request, the
session takes the break as dealt with and clears the flag. Nothing else clears it, and the refusal does not always
come out. The stages of a pipeline and the command of a loop set have a log of their own, which nobody looks through
for a refusal: it turns into the status of a stage or into no lines. A program that was stopped just ends.

`Session.traced` is a request with its log. The flag is left over exactly if there was a break and no command of the
request itself was refused (`Session.break_outlasts_request`). Then the next line is refused though nobody asked for
it (`Session.serve_refused`, `Session.break_refuses_next_line`).
-/
namespace BatchShell

/-! ## Refusals in a log -/

/-- A signal that has been taken up was one that the frame of a script takes up. -/
theorem Settled.endsAtFrame {events : List Event} {signal : Signal} (h : Settled events)
    (hmem : .raised signal ∈ events) : signal.endsAtFrame = true := by
  induction h with
  | nil => cases hmem
  | started c _ ih =>
    rw [List.mem_append, List.mem_singleton] at hmem
    rcases hmem with hmem | hmem
    · exact ih hmem
    · cases hmem
  | handled _ hframe ih =>
    rw [List.mem_append, List.mem_pair] at hmem
    rcases hmem with hmem | hmem | hmem
    · exact ih hmem
    · cases hmem
      exact hframe
    · cases hmem

/-- What no frame takes up comes out. -/
theorem Ending.Orderly.mem_raised_iff {ending : Ending} {events : List Event} {signal : Signal}
    (h : ending.Orderly events) (hframe : signal.endsAtFrame = false) :
    .raised signal ∈ events ↔ ending = .signal signal := by
  have hfree {before : List Event} (hbefore : Settled before) : .raised signal ∉ before := by
    intro hmem
    have htaken := hbefore.endsAtFrame hmem
    rw [hframe] at htaken
    cases htaken
  constructor
  · intro hmem
    cases ending with
    | status n => exact absurd hmem (hfree h)
    | signal other =>
      obtain ⟨before, hbefore, rfl⟩ := h
      rw [List.mem_append, List.mem_singleton] at hmem
      cases hmem.resolve_left (hfree hbefore)
      rfl
    | crashed why =>
      obtain ⟨before, hbefore, rfl⟩ := h
      rw [List.mem_append, List.mem_singleton] at hmem
      cases hmem.resolve_left (hfree hbefore)
  · rintro rfl
    obtain ⟨before, -, rfl⟩ := h
    exact List.mem_append_right before (List.mem_singleton_self _)

/-! ## Commands that find a break -/

/-- Is the first thing that the command does a pipeline? -/
def Command.opensWithPipe : Command → Bool
  | .pipe _ _ => true
  | .both left _ | .andThen left _ | .orElse left _ => left.opensWithPipe
  | .simple _ | .block _ _ | .ifThen _ _ | .ifElse _ _ _ | .loop _ _ => false

/-- A command that finds a break is refused and does nothing, unless it starts with a pipeline. -/
theorem runCommand_refused {e : Engine} {again : Again} {stdin : String} {m : Machine} (c : Command)
    (hpipe : c.opensWithPipe = false) (hbreak : m.host.interrupted = true) :
    e.runCommand again c stdin m = some (.raise .interrupted, m) := by
  have hcounted (body : Machine → Run) : e.counted m body = some (.raise .interrupted, m) := by
    rw [Engine.counted, if_pos hbreak]
  induction c with
  | simple c => exact hcounted _
  | block body rs _ => exact hcounted _
  | ifThen c body _ => exact hcounted _
  | ifElse c body other _ _ => exact hcounted _
  | loop head body _ => exact hcounted _
  | pipe left right _ _ => cases hpipe
  | both left right ih _ =>
    rw [Engine.runCommand, ih hpipe]
    rfl
  | andThen left right ih _ =>
    rw [Engine.runCommand, ih hpipe]
    rfl
  | orElse left right ih _ =>
    rw [Engine.runCommand, ih hpipe]
    rfl

/-! ## Requests with their log -/

namespace Session

variable {s s' : Session} {request : Request} {r : Result}

/-- The run that a request starts, with its log. -/
def traced (s : Session) : Request → TracedRun
  | .line text => s.engine.trace maxLevels (.line ((s.machine.state.macros.expandLine? text).getD text)) s.stdin
    s.fresh .empty
  | .script name source args =>
    s.engine.trace maxLevels (.script (.load name source) 0 (.ofCall name args)) s.stdin s.fresh .empty
  | .file path args =>
    traceBatch (s.engine.trace maxLevels) (Path.resolve s.machine.state.cwd path) args s.stdin s.fresh .empty

theorem traced_mirrors (s : Session) (request : Request) :
    Mirrors .empty (s.run request) (s.traced request) := by
  have hall : Teller.Mirrors (s.engine.trace maxLevels) s.engine.runTask := s.engine.perform_mirrors maxLevels
  cases request with
  | line text => exact hall _ s.stdin s.fresh .empty
  | script name source args => exact hall _ s.stdin s.fresh .empty
  | file path args => exact .callBatch hall _ args

theorem run_affects (s : Session) (request : Request) :
    Ends (s.run request) fun _ m => s.engine.Affects s.machine.host m.host := by
  have hall : ∀ task stdin m, s.engine.Affects s.machine.host m.host →
      s.engine.Leads s.machine.host (s.engine.runTask task stdin m) := by
    intro task stdin m hm
    exact (s.engine.perform_affects maxLevels task stdin m).mono fun _ _ hafter => hm.trans hafter
  cases request with
  | line text => exact hall _ s.stdin s.fresh .refl
  | script name source args => exact hall _ s.stdin s.fresh .refl
  | file path args => exact callBatch_leads hall (m := s.fresh) .refl _ args

/-- The flag after a request: cleared if a break came out of it, and otherwise as its run left it. -/
theorem interrupted_of_serve (h : s.serve request = some (.ok (r, s'))) :
    ∃ o m, s.run request = some (o, m) ∧
      (o.ending = .signal .interrupted → r.status = interruptedStatus ∧ s'.machine.host.interrupted = false) ∧
      (o.ending ≠ .signal .interrupted → s'.machine.host.interrupted = m.host.interrupted) := by
  obtain ⟨m, ⟨hdone, rfl⟩ | ⟨signal, out, err, hraised, rfl, rfl⟩⟩ := exists_run_of_serve h
  · refine ⟨_, m, hdone, ?_, fun _ => rfl⟩
    intro hending
    cases hending
  · refine ⟨_, m, hraised, ?_, ?_⟩
    · intro hending
      cases hending
      exact ⟨rfl, rfl⟩
    · intro hending
      cases signal with
      | interrupted => exact absurd rfl hending
      | _ => rfl

/-! ## Lines -/

/-- The command that a line is read as. -/
def command? (s : Session) (text : String) : Option Command := (s.job? (.line text)).bind Job.command?

theorem run_line {text : String} {c : Command} (h : s.command? text = some c) :
    ∃ again length, s.run (.line text) = s.engine.runCommand again c s.stdin (s.fresh.pass length) :=
  ⟨s.engine.perform 999999, _, s.engine.runLine_of_reads _ h s.stdin⟩

/-- A line that finds a break is refused, and that clears the flag. -/
theorem serve_refused {text : String} {c : Command} (hread : s.command? text = some c)
    (hpipe : c.opensWithPipe = false) (hbreak : s.machine.host.interrupted = true) :
    ∃ s' now, s.serve (.line text) = some (.ok (⟨"", "", interruptedStatus⟩, s')) ∧
      s'.machine.host = { s.machine.host with interrupted := false, now } := by
  obtain ⟨again, length, hrun⟩ := run_line hread
  rw [runCommand_refused (m := s.fresh.pass length) c hpipe hbreak] at hrun
  rw [serve_eq_finish, hrun]
  exact ⟨_, _, rfl, rfl⟩

/-- A line that is a pipeline never ends with a break. -/
theorem run_pipeline_ending {text : String} {left right : Command} (hread : s.command? text = some (.pipe left right)) :
    Ends (s.run (.line text)) fun ending _ => ending ≠ .signal .interrupted := by
  obtain ⟨again, length, hrun⟩ := run_line hread
  rw [hrun]
  refine .runPipeline fun host status => ?_
  intro h
  cases h

/-- **A break outlasts the request exactly if no command of the request itself was refused for it.** Commands of the
request itself are those that are neither in a stage of a pipeline nor in the command of a loop set. If one of them
was refused, the result has the status of a break and the flag is clear. If there was a break, before the request or
while one of its programs ran, and none of them was refused, the flag is still set. So it is after every pipeline
that found a break, and the next line is refused unless it starts with a pipeline again. -/
theorem break_outlasts_request (s s' : Session) (request : Request) (r : Result)
    (hserve : s.serve request = some (.ok (r, s'))) :
    ∃ ending m t, s.traced request = some (ending, m, t) ∧ s.run request = some (ending.outcome t.out t.err, m) ∧
      (s'.machine.host.interrupted = true ↔ .raised .interrupted ∉ t.events ∧
        (s.machine.host.interrupted = true ∨ s.engine.Breaks s.machine.host m.host)) ∧
      (.raised .interrupted ∈ t.events → r.status = interruptedStatus) ∧
      (∀ text left right, request = .line text → s.command? text = some (.pipe left right) →
        .raised .interrupted ∉ t.events) ∧
      (s'.machine.host.interrupted = true → ∀ text c, s'.command? text = some c → c.opensWithPipe = false →
        ∃ s'' now, s'.serve (.line text) = some (.ok (⟨"", "", interruptedStatus⟩, s'')) ∧
          s''.machine.host = { s'.machine.host with interrupted := false, now }) := by
  obtain ⟨o, m, hrun, hcleared, hkept⟩ := interrupted_of_serve hserve
  have hmirrors := s.traced_mirrors request
  have hflag := (s.run_affects request o m hrun).interrupted_iff
  have htext := hmirrors.run_eq
  rw [hrun] at hmirrors
  generalize htraced : s.traced request = traced at hmirrors htext
  cases hmirrors with
  | @ended ending out err _ t hwrote =>
    rw [Ending.ending_outcome] at hcleared hkept
    have hrefused : .raised .interrupted ∈ t.events ↔ ending = .signal .interrupted :=
      (hwrote.order .nil).mem_raised_iff rfl
    refine ⟨ending, m, t, rfl, htext, ?_, fun hmem => (hcleared (hrefused.mp hmem)).1, ?_, ?_⟩
    · rw [hrefused, ← hflag]
      by_cases hending : ending = .signal .interrupted
      · simp [hending, hcleared hending]
      · simp [hending, hkept hending]
    · rintro text left right rfl hread hmem
      exact run_pipeline_ending hread _ m hrun ((Ending.ending_outcome out err ending).trans (hrefused.mp hmem))
    · intro hbreak text c hread hpipe
      exact serve_refused hread hpipe hbreak

/-- A session in which a break was requested. -/
def broken : Session :=
  { bare with machine := ⟨bare.machine.state, { bare.machine.host with interrupted := true }⟩ }

/-- A session with a program that is stopped by a break. -/
def stopping : Session :=
  ⟨⟨.standard, fun _ _ files => ⟨[], [], .exited interruptedStatus, true, files⟩, .never⟩, .withTool "tool", ""⟩

/-- Two commands on one line, of which the first is refused for the break. -/
theorem break_outlasts_request_refused :
    ∃ r s', broken.serve (.line "echo a& echo b") = some (.ok (r, s')) ∧ r.status = interruptedStatus ∧
      s'.machine.host.interrupted = false ∧ ∃ ending m t, broken.traced (.line "echo a& echo b") = some (ending, m, t) ∧
        .raised .interrupted ∈ t.events := by
  have hflags : (broken.serve (.line "echo a& echo b")).served?.map
      (fun p => (p.1.status, p.2.machine.host.interrupted)) = some (interruptedStatus, false) := by decide +kernel
  obtain ⟨⟨r, s'⟩, hserve, hpair⟩ := Option.map_eq_some_iff.mp hflags
  have hserve := Answer.served?_eq_some_iff.mp hserve
  obtain ⟨hstatus, hclear⟩ := Prod.mk.inj hpair
  obtain ⟨ending, m, t, htraced, -, hflag, -⟩ := break_outlasts_request broken s' _ r hserve
  refine ⟨r, s', hserve, hstatus, hclear, ending, m, t, htraced, ?_⟩
  by_contra hnone
  have hset := hflag.mpr ⟨hnone, .inl rfl⟩
  rw [hclear] at hset
  cases hset

/-- One break, and two requests are cut short: a pipeline whose stages are refused, or a program that is stopped, and
then a line that has nothing to do with it. -/
theorem break_refuses_next_line :
    (broken.serve (.line "echo a| more")).served?.bind (fun p =>
        (p.2.serve (.line "echo b")).served?.map fun q => (p.1, p.2.machine.host.interrupted, q.1)) =
          some (⟨"", "", interruptedStatus⟩, true, ⟨"", "", interruptedStatus⟩) ∧
      (stopping.serve (.line "tool")).served?.bind (fun p =>
        (p.2.serve (.line "echo b")).served?.map fun q => (p.1, p.2.machine.host.interrupted, q.1)) =
          some (⟨"", "", interruptedStatus⟩, true, ⟨"", "", interruptedStatus⟩) := by
  constructor <;> decide +kernel

end Session

end BatchShell
