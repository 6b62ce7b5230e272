import BatchShell.Proofs.Engine.Diagnostics
import BatchShell.Proofs.Session.Spending

/-!
# Two reports of one signal

A signal that escapes becomes a result in two places: at the end of a session's line (`Session.finalResult`) and at
the end of a stage of a pipeline (`Outcome.stageResult`). Both keep the text that the signal carries. They differ in
two signals. A stage complains of a label that is not there although the frame of the script has done so, and it
neither names the limit on commands nor gives its status, which only the session does (`stage_reports_apart`).

The session reports each diagnostic once: what the signal carries ends in the complaint with which it was raised
(`Engine.complaint_of_raised`), and the one signal that is raised without its diagnostic gets it at the end.
-/
namespace BatchShell

/-- What has to be reported of a signal. -/
def Signal.diagnostic : Signal → String
  | .labelNotFound label => labelNotFoundText label
  | .recursionLimit depth => recursionLimitText depth
  | .executionLimit limit => (Signal.executionLimit limit).message ++ "\n"
  | .goto _ | .exit _ _ | .interrupted => ""

/-- How often the stage of a pipeline reports the diagnostic of a signal. -/
def Signal.stageReports : Signal → Nat
  | .labelNotFound _ => 2
  | .executionLimit _ => 0
  | .goto _ | .exit _ _ | .recursionLimit _ | .interrupted => 1

/-- The errors of what ended with a signal end in the complaint that it was raised with, unless some command sent
its errors elsewhere. The signal was raised once, at the very end. -/
theorem Engine.complaint_of_raised {e : Engine} {levels : Nat} {task : Task} {stdin : String} {m m' : Machine}
    {signal : Signal} {out err : String} (h : e.perform levels task stdin m = some (.raised signal out err, m')) :
    ∃ t, e.trace levels task stdin m .empty = some (.signal signal, m', t) ∧
      (∃ before, Settled before ∧ t.events = before ++ [.raised signal]) ∧
      (KeepErrors t.events → ∃ front, err = front ++ signal.attached) := by
  have hmirrors : Mirrors .empty (e.perform levels task stdin m) (e.trace levels task stdin m .empty) :=
    e.perform_mirrors levels task stdin m .empty
  have hcarries : Carries True .empty (e.trace levels task stdin m .empty) :=
    e.perform_carries levels True task stdin m .empty
  generalize e.trace levels task stdin m .empty = traced at hmirrors hcarries ⊢
  generalize e.perform levels task stdin m = run at h hmirrors
  cases hmirrors with
  | endless => cases h
  | @ended ending _ _ _ t hw =>
    cases ending with
    | signal s =>
      cases h
      refine ⟨t, rfl, hw.order .nil, fun hkeep => ?_⟩
      obtain ⟨more, text, hevents, herr, hlast⟩ := hcarries _ _ _ rfl
      have hmore : t.events = more := hevents.trans (List.nil_append _)
      obtain ⟨front, hfront⟩ := hlast trivial (hmore ▸ hkeep)
      have hwritten : "" ++ err = "" ++ text := hw.err.symm.trans herr
      rw [String.empty_append, String.empty_append] at hwritten
      exact ⟨front, hwritten.trans hfront⟩
    | status n => cases h
    | crashed why => cases h

theorem labelNotFoundText_ne (label : String) : labelNotFoundText label ≠ "" := by
  intro h
  have hend : "\n" = "" := (String.append_eq_empty_iff.mp h).2
  exact absurd hend (by decide)

/-! ## The two results -/

namespace Session

variable (signal : Signal) (out err : String)

/-- A stage and the session give different results for the signals of which they report differently often. -/
theorem stageResult_eq_finalResult_iff :
    Outcome.stageResult (.raised signal out err) = finalResult signal out err ↔ signal.stageReports = 1 := by
  cases signal with
  | labelNotFound label =>
    refine ⟨fun h => ?_, fun h => nomatch h⟩
    have hstderr : err ++ labelNotFoundText label = err := congrArg Result.stderr h
    exact absurd (String.append_eq_left_iff.mp hstderr) (labelNotFoundText_ne label)
  | executionLimit limit =>
    refine ⟨fun h => ?_, fun h => nomatch h⟩
    have hstatus : (1 : Status) = executionLimitStatus := congrArg Result.status h
    exact absurd hstatus (by decide)
  | goto label => exact ⟨fun _ => rfl, fun _ => rfl⟩
  | exit status batchOnly => exact ⟨fun _ => rfl, fun _ => rfl⟩
  | recursionLimit depth => exact ⟨fun _ => rfl, fun _ => rfl⟩
  | interrupted => exact ⟨fun _ => rfl, fun _ => rfl⟩

theorem stageResult_status_iff :
    (Outcome.stageResult (.raised signal out err)).status = (finalResult signal out err).status ↔
      ∀ limit, signal ≠ .executionLimit limit := by
  cases signal with
  | executionLimit limit =>
    refine ⟨fun h => ?_, fun h => absurd rfl (h limit)⟩
    have hstatus : (1 : Status) = executionLimitStatus := h
    exact absurd hstatus (by decide)
  | goto label => exact ⟨fun _ _ h => Signal.noConfusion h, fun _ => rfl⟩
  | exit status batchOnly => exact ⟨fun _ _ h => Signal.noConfusion h, fun _ => rfl⟩
  | labelNotFound label => exact ⟨fun _ _ h => Signal.noConfusion h, fun _ => rfl⟩
  | recursionLimit depth => exact ⟨fun _ _ h => Signal.noConfusion h, fun _ => rfl⟩
  | interrupted => exact ⟨fun _ _ h => Signal.noConfusion h, fun _ => rfl⟩

theorem stageResult_stdout :
    (Outcome.stageResult (.raised signal out err)).stdout = (finalResult signal out err).stdout := by
  cases signal <;> rfl

/-- The session adds the diagnostic that was not attached. -/
theorem finalResult_stderr (front : String) :
    (finalResult signal out (front ++ signal.attached)).stderr = front ++ signal.diagnostic := by
  cases signal with
  | executionLimit limit =>
    change front ++ "" ++ _ ++ "\n" = front ++ (_ ++ "\n")
    rw [String.append_empty, String.append_assoc]
  | _ => rfl

/-- A stage adds the diagnostic that was attached already. -/
theorem stageResult_stderr (front : String) :
    (Outcome.stageResult (.raised signal out (front ++ signal.attached))).stderr =
      front ++ String.join (List.replicate signal.stageReports signal.diagnostic) := by
  have hone (text : String) : String.join (List.replicate 1 text) = text := by simp [List.replicate]
  have htwo (text : String) : String.join (List.replicate 2 text) = text ++ text := by simp [List.replicate]
  cases signal with
  | labelNotFound label =>
    rw [Signal.stageReports, htwo]
    exact String.append_assoc
  | executionLimit limit => rfl
  | goto label => rw [Signal.stageReports, hone]; rfl
  | exit status batchOnly => rw [Signal.stageReports, hone]; rfl
  | recursionLimit depth => rw [Signal.stageReports, hone]; rfl
  | interrupted => rw [Signal.stageReports, hone]; rfl

end Session

/-- Whatever a task ends with, the session and the stage of a pipeline report its output alike. They report the same
for every signal but two: of a label that is not there the stage complains twice, and the limit on commands it does
not name, and gives another status. The session reports every diagnostic once, at the end of what was written on
the way to the signal, unless some command sent its errors elsewhere. -/
theorem Session.stage_reports_apart (s : Session) (levels : Nat) (task : Task) (stdin : String) (m m' : Machine)
    (signal : Signal) (out err : String)
    (h : s.engine.perform levels task stdin m = some (.raised signal out err, m')) :
    let stage := Outcome.stageResult (.raised signal out err)
    ∃ final ended t, s.finish (some (.raised signal out err, m')) = some (.ok (final, ended)) ∧
      s.engine.trace levels task stdin m .empty = some (.signal signal, m', t) ∧
      (stage = final ↔ signal.stageReports = 1) ∧ stage.stdout = final.stdout ∧
      (stage.status = final.status ↔ ∀ limit, signal ≠ .executionLimit limit) ∧
      (∃ before, Settled before ∧ t.events = before ++ [.raised signal]) ∧
      (KeepErrors t.events → ∃ front, final.stderr = front ++ signal.diagnostic ∧
        stage.stderr = front ++ String.join (List.replicate signal.stageReports signal.diagnostic)) := by
  intro stage
  obtain ⟨t, htrace, honce, hlast⟩ := Engine.complaint_of_raised h
  refine ⟨finalResult signal out err, _, t, rfl, htrace, stageResult_eq_finalResult_iff signal out err,
    stageResult_stdout signal out err, stageResult_status_iff signal out err, honce, fun hkeep => ?_⟩
  obtain ⟨front, rfl⟩ := hlast hkeep
  exact ⟨front, finalResult_stderr signal out front, stageResult_stderr signal out front⟩

/-- A session with a batch file that goes to a label it does not have. -/
def Session.misled : Session :=
  let files : FileTree := ⟨[(["T.BAT"], .file ⟨Text.encode "@goto nowhere\n", false, false⟩)], [], "", false⟩
  { bare with machine := ⟨bare.machine.state, { bare.machine.host with files := files }⟩ }

/-- The batch file, run as a command. -/
theorem Session.stage_reports_apart_label :
    let text := "The system cannot find the batch label specified - nowhere\n"
    ∃ o m' final ended front,
      misled.engine.perform 4 (.command (.simple ⟨"T.BAT", [], "", []⟩)) "" misled.machine = some (o, m') ∧
      misled.finish (some (o, m')) = some (.ok (final, ended)) ∧ o.stageResult ≠ final ∧
      o.stageResult.status = final.status ∧ final.stderr = front ++ text ∧
      o.stageResult.stderr = front ++ (text ++ text) := by
  intro text
  have hfirst : (misled.engine.perform 4 (.command (.simple ⟨"T.BAT", [], "", []⟩)) "" misled.machine).map Prod.fst =
      some (.raised (.labelNotFound "nowhere") "" text) := by decide +kernel
  have hevents : (misled.engine.trace 4 (.command (.simple ⟨"T.BAT", [], "", []⟩)) "" misled.machine .empty).map
      (·.2.2.events) = some [.started (.simple ⟨"T.BAT", [], "", []⟩),
        .started (.simple ⟨"goto", ["nowhere"], " nowhere", []⟩), .raised (.goto "nowhere"),
        .handled (.goto "nowhere"), .raised (.labelNotFound "nowhere")] := by decide +kernel
  obtain ⟨⟨o, m'⟩, hrun, rfl⟩ := Option.map_eq_some_iff.mp hfirst
  obtain ⟨final, ended, t, hfinish, htrace, heq, -, hstatus, -, hlast⟩ :=
    misled.stage_reports_apart 4 _ "" _ m' _ _ _ hrun
  rw [htrace] at hevents
  have hkeep : KeepErrors t.events := by
    have hlist : t.events = _ := Option.some.inj hevents
    rw [hlist]
    intro c hc
    simp only [List.mem_cons, Event.started.injEq, reduceCtorEq, List.not_mem_nil, or_false] at hc
    obtain rfl | rfl := hc <;> rfl
  obtain ⟨front, hfinal, hstage⟩ := hlast hkeep
  refine ⟨_, m', final, ended, front, hrun, hfinish, fun hsame => ?_, hstatus.mpr (by simp), hfinal, hstage⟩
  exact absurd (heq.mp hsame) (by decide)

/-- The same text is typed as a line and as the last stage of a pipeline: a batch file that goes to a missing label,
and a block that exceeds a limit of one command. -/
theorem Session.stage_reports_other_result :
    let text := "The system cannot find the batch label specified - nowhere\n"
    ((misled.serve (.line "T.BAT")).served?.map Prod.fst = some ⟨"", text, 1⟩ ∧
      (misled.serve (.line "echo a| T.BAT")).served?.map Prod.fst = some ⟨"", text ++ text, 1⟩) ∧
    ((limited 1).serve (.line "(echo b & echo c)")).served?.map Prod.fst =
        some ⟨"", "too many commands executed (limit 1)\n", executionLimitStatus⟩ ∧
      ((limited 1).serve (.line "echo a| (echo b & echo c)")).served?.map Prod.fst = some ⟨"", "", 1⟩ := by
  refine ⟨⟨?_, ?_⟩, ?_, ?_⟩ <;> decide +kernel

end BatchShell
