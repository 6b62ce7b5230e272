import BatchShell.Proofs.Session.Stacks

/-!
# The phases of the interpreter

A line, a command or a script enters other phases on its way: the head of a loop is branching, its body is
iterating, a called script is calling. Each goes back to the phase it was entered in, but nothing comes back
from the end. So the phase that is left depends on the outcome alone (`Engine.perform_phase`): it is the last
one if an `EXIT` of the interpreter came out, and the phase of the start otherwise.

* `runPipeline_stays`, `runLoop_stays`: the stages of a pipeline and the command in the set of a loop run in
  copies of the state. A pipeline never ends the interpreter, and a loop does only if its body does.
* `Session.terminated_reaches`: a session that has ended stays so, whatever it is asked for.
-/
namespace BatchShell

/-! ## The phase after an outcome -/

/-- What came out leaves the interpreter, and not only a script. -/
def Ending.EndsInterpreter (ending : Ending) : Prop := ∃ status, ending = .signal (.exit status false)

/-- The outcome leaves the interpreter, and not only a script. -/
def Outcome.EndsInterpreter (o : Outcome) : Prop := ∃ status out err, o = .raised (.exit status false) out err

theorem Outcome.endsInterpreter_iff (o : Outcome) : o.EndsInterpreter ↔ o.ending.EndsInterpreter := by
  constructor
  · rintro ⟨status, out, err, rfl⟩
    exact ⟨status, rfl⟩
  · rintro ⟨status, h⟩
    cases o with
    | done r => cases h
    | raised signal out err =>
      cases h
      exact ⟨status, out, err, rfl⟩
    | crashed why => cases h

namespace Ending

variable {ending : Ending} {phase : Phase}

theorem EndsInterpreter.phaseAfter (h : ending.EndsInterpreter) : ending.phaseAfter phase = .terminated := by
  obtain ⟨status, rfl⟩ := h
  rfl

theorem phaseAfter_of_not (h : ¬ ending.EndsInterpreter) : ending.phaseAfter phase = phase := by
  unfold Ending.phaseAfter
  split
  · exact absurd ⟨_, rfl⟩ h
  · rfl

/-- The last phase is left by nothing. -/
theorem phaseAfter_terminated (ending : Ending) : ending.phaseAfter .terminated = .terminated := by
  unfold Ending.phaseAfter
  split <;> rfl

/-- From any other phase it is reached by leaving the interpreter alone. -/
theorem phaseAfter_eq_terminated_iff (h : phase ≠ .terminated) :
    ending.phaseAfter phase = .terminated ↔ ending.EndsInterpreter := by
  refine ⟨fun hafter => ?_, fun hends => hends.phaseAfter⟩
  by_cases hends : ending.EndsInterpreter
  · exact hends
  · rw [phaseAfter_of_not hends] at hafter
    exact absurd hafter h

end Ending

/-- The phase that a task leaves depends on how it ended and on the phase of the start. -/
theorem Engine.perform_phase {e : Engine} {levels : Nat} {task : Task} {stdin : String} {m m' : Machine}
    {o : Outcome} (h : e.perform levels task stdin m = some (o, m')) :
    m'.state.phase = o.ending.phaseAfter m.state.phase :=
  (e.perform_leaves levels task stdin m o m' h).kept.phase

/-! ## Copies of the state -/

section

variable {e : Engine} {again : Again} {m : Machine} {stdin : String}

/-- The signal of a stage ends that stage, and a pipeline ends with a result. -/
theorem runPipeline_stays (stages : List Command) :
    Ends (e.runPipeline again stages stdin m) fun ending _ => ¬ ending.EndsInterpreter := by
  refine .runPipeline fun host status => ?_
  rintro ⟨_, h⟩
  cases h

/-- Of the run of a command in the set of a loop nothing comes out but text. -/
theorem runLoop_stays {head : LoopHead} {body : Machine → Run}
    (hbody : ∀ m, Ends (body m) fun ending _ => ¬ ending.EndsInterpreter) :
    Ends (e.runLoop again head body m) fun ending _ => ¬ ending.EndsInterpreter := by
  have hresult : ∀ ending : Ending, (∀ signal, ending ≠ .signal signal) → ¬ ending.EndsInterpreter := by
    rintro ending hsignal ⟨status, h⟩
    exact hsignal _ h
  refine .runLoop (fun _ => True) (fun _ => hresult) (fun _ => trivial) ?_ (fun status _ _ => hresult _ (by simp))
  intro m' frame _ o m'' hrun
  have hends := hbody _ o m'' hrun
  cases hending : o.ending with
  | status status => trivial
  | signal s =>
    rw [hending] at hends
    exact hends
  | crashed why => exact hresult _ (by simp)

theorem runCommand_loop_stays {head : LoopHead} {body : Command}
    (hbody : ∀ m, Ends (e.runCommand again body stdin m) fun ending _ => ¬ ending.EndsInterpreter) :
    Ends (e.runCommand again (.loop head body) stdin m) fun ending _ => ¬ ending.EndsInterpreter := by
  refine .counted ?_ ?_ ((runLoop_stays hbody).recorded (fun _ _ h => h) fun _ _ _ h => h)
  · rintro ⟨_, h⟩
    cases h
  · rintro ⟨_, h⟩
    cases h

end

/-! ## Sessions -/

namespace Session

theorem terminated_serve {s s' : Session} {request : Request} {r : Result} (h : s.isTerminated = true)
    (hserve : s.serve request = some (.ok (r, s'))) : s'.isTerminated = true := by
  have hlast : s.machine.state.phase = .terminated := eq_of_beq h
  have hphase : s'.machine.state.phase = .terminated := by
    refine kept_of_serve (·.phase = .terminated) hserve ?_ fun _ _ h => h
    refine (s.run_kept request).mono fun ending m hkept => ?_
    rw [hkept.phase, hlast, Ending.phaseAfter_terminated]
  exact beq_iff_eq.mpr hphase

theorem terminated_reaches {s t : Session} (hr : Reaches s t) (h : s.isTerminated = true) :
    t.isTerminated = true := by
  induction hr with
  | refl => exact h
  | world host _ ih => exact ih
  | serve _ hserve ih => exact terminated_serve ih hserve

end Session

/-- **The phase machine.** Unless the interpreter had ended before, a line, a command or a script leaves it
ended exactly if an `EXIT` came out that is not only for a script, and in the phase of the start after every
other outcome; an ended interpreter stays so. An `EXIT` in a stage of a pipeline or in the command set of a
loop does not come out: a pipeline keeps the phase, and so does a loop over a body that does not leave the
interpreter. So a session that has ended never runs on, whatever it is asked for. -/
theorem Engine.phase_decided_by_outcome (e : Engine) (levels : Nat) :
    (∀ (task : Task) (stdin : String) (m m' : Machine) (o : Outcome),
      e.perform levels task stdin m = some (o, m') →
        (m.state.phase ≠ .terminated →
          (m'.state.phase = .terminated ↔ o.EndsInterpreter) ∧
          (¬ o.EndsInterpreter → m'.state.phase = m.state.phase)) ∧
        (m.state.phase = .terminated → m'.state.phase = .terminated)) ∧
    (∀ (left right : Command) (stdin : String) (m m' : Machine) (o : Outcome),
      e.perform levels (.command (.pipe left right)) stdin m = some (o, m') →
        ¬ o.EndsInterpreter ∧ m'.state.phase = m.state.phase) ∧
    (∀ (head : LoopHead) (body : Command) (stdin : String) (m m' : Machine) (o : Outcome),
      e.perform levels (.command (.loop head body)) stdin m = some (o, m') →
        (∀ m₁ m₂ o', e.perform levels (.command body) stdin m₁ = some (o', m₂) → ¬ o'.EndsInterpreter) →
          ¬ o.EndsInterpreter ∧ m'.state.phase = m.state.phase) ∧
    (∀ s t : Session, s.Reaches t → s.isTerminated = true → t.isTerminated = true) := by
  have hkeeps : ∀ {task stdin m m' o}, e.perform levels task stdin m = some (o, m') →
      ¬ o.ending.EndsInterpreter → ¬ o.EndsInterpreter ∧ m'.state.phase = m.state.phase := by
    intro task stdin m m' o h hnot
    exact ⟨mt o.endsInterpreter_iff.mp hnot, (perform_phase h).trans (Ending.phaseAfter_of_not hnot)⟩
  refine ⟨fun task stdin m m' o h => ⟨fun hphase => ⟨?_, fun hnot => ?_⟩, fun hlast => ?_⟩,
    fun left right stdin m m' o h => ?_, fun head body stdin m m' o h hbody => ?_,
    fun s t hr h => Session.terminated_reaches hr h⟩
  · rw [perform_phase h, Ending.phaseAfter_eq_terminated_iff hphase, o.endsInterpreter_iff]
  · exact (hkeeps h (mt o.endsInterpreter_iff.mpr hnot)).2
  · rw [perform_phase h, hlast, Ending.phaseAfter_terminated]
  · refine hkeeps h ?_
    cases levels with
    | zero => cases h
    | succ levels => exact runPipeline_stays _ o m' h
  · refine hkeeps h ?_
    cases levels with
    | zero => cases h
    | succ levels =>
      refine runCommand_loop_stays (fun m₁ o' m₂ hrun => ?_) o m' h
      exact mt o'.endsInterpreter_iff.mpr (hbody m₁ m₂ o' hrun)

/-- An `EXIT` in the body of a loop ends the interpreter. In both stages of a pipeline it does not, and
neither does it in the command set of a loop over that pipeline. A session that was left stays ended. -/
theorem Engine.phase_decided_by_outcome_exit :
    let exit : Command := .simple ⟨"exit", [], "", []⟩
    (∃ o m', Engine.bare.perform 2 (.command (.loop ⟨'i', .items, ["a"], "a"⟩ exit)) "" .inScript =
        some (o, m') ∧ o.EndsInterpreter ∧ m'.state.phase = .terminated) ∧
      (∃ o m', Engine.bare.perform 2 (.command (.loop ⟨'i', .lines "", [], "'echo a& exit'"⟩
          (.pipe exit exit))) "" .inScript = some (o, m') ∧ m'.state.phase = .running) ∧
      ∃ r s r' s', Session.bare.serve (.line "exit") = some (.ok (r, s)) ∧ s.isTerminated = true ∧
        s.serve (.line "ver") = some (.ok (r', s')) ∧ s'.isTerminated = true := by
  intro exit
  obtain ⟨htask, hpipe, hloop, hsession⟩ := Engine.bare.phase_decided_by_outcome 2
  refine ⟨?_, ?_, ?_⟩
  · have hrun : (Engine.bare.perform 2 (.command (.loop ⟨'i', .items, ["a"], "a"⟩ exit)) ""
        .inScript).map Prod.fst = some (.raised (.exit 0 false) "" "") := by decide +kernel
    obtain ⟨⟨o, m'⟩, hrun, rfl⟩ := Option.map_eq_some_iff.mp hrun
    have hends : Outcome.EndsInterpreter (.raised (.exit 0 false) "" "") := ⟨0, "", "", rfl⟩
    exact ⟨_, m', hrun, hends, (((htask _ _ _ m' _ hrun).1 (by decide)).1).mpr hends⟩
  · have hsome : (Engine.bare.perform 2 (.command (.loop ⟨'i', .lines "", [], "'echo a& exit'"⟩
        (.pipe exit exit))) "" .inScript).isSome = true := by decide +kernel
    obtain ⟨⟨o, m'⟩, hrun⟩ := Option.isSome_iff_exists.mp hsome
    have hbody := fun m₁ m₂ o' h => (hpipe exit exit "" m₁ m₂ o' h).1
    exact ⟨o, m', hrun, (hloop _ _ _ _ m' o hrun hbody).2⟩
  · have hboth : ((Session.bare.serve (.line "exit")).served?.bind fun p =>
        (p.2.serve (.line "ver")).served?.map fun _ => p.2.isTerminated) = some true := by decide +kernel
    obtain ⟨⟨r, s⟩, hexit, hnext⟩ := Option.bind_eq_some_iff.mp hboth
    obtain ⟨⟨r', s'⟩, hver, hended⟩ := Option.map_eq_some_iff.mp hnext
    rw [Session.Answer.served?_eq_some_iff] at hexit hver
    exact ⟨r, s, r', s', hexit, hended, hver, hsession s s' (.serve .refl hver) hended⟩

end BatchShell
