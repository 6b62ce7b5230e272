import BatchShell.Session

/-!
# What holds when a run ends

`Ends run post` says that however `run` ends, with a result, with a signal or by breaking off, the way it ended
and the machine it left satisfy `post`. A run without end (`none`) satisfies everything. The text of an outcome
does not matter here: `Outcome.ending` forgets it, so that sending output elsewhere or putting it in front
of another outcome changes nothing.

One rule for each construct of the engine says what has to be shown of its parts:

* `Ends.counted`, `Ends.redirected`, `Ends.andThen`, `Ends.recorded` for what surrounds a command;
* `Ends.runPipeline`, `Ends.runLoop`, `Ends.runLines` for the constructs that repeat, the last two with an
  invariant;
* `Ends.perform` for a whole task: what one level keeps if the levels below keep it, every task keeps.
-/
namespace BatchShell

/-- How an outcome ended, apart from its text. -/
inductive Ending where
  | status (status : Status)
  | signal (signal : Signal)
  | crashed (why : Crash)
  deriving DecidableEq

/-- Does nothing run after this that would have run after a result? -/
def Ending.stops : Ending → Bool
  | .status _ => false
  | .signal _ | .crashed _ => true

namespace Outcome

/-- Forget the text of an outcome. -/
def ending : Outcome → Ending
  | .done r => .status r.status
  | .raised signal _ _ => .signal signal
  | .crashed why => .crashed why

@[simp] theorem ending_done (r : Result) : (done r).ending = .status r.status := rfl

@[simp] theorem ending_raised (signal : Signal) (out err : String) :
    (raised signal out err).ending = .signal signal := rfl

@[simp] theorem ending_crashed (why : Crash) : (crashed why).ending = .crashed why := rfl

@[simp] theorem ending_raise (signal : Signal) : (raise signal).ending = .signal signal := rfl

@[simp] theorem ending_prepend (out err : String) (o : Outcome) :
    (o.prepend out err).ending = o.ending := by
  cases o <;> rfl

@[simp] theorem ending_after (r : Result) (o : Outcome) : (o.after r).ending = o.ending :=
  ending_prepend _ _ o

end Outcome

namespace Plan

@[simp] theorem status_route (sink : Sink) (text : String) (r : Result) (files : FileTree) :
    (route sink text r files).1.status = r.status := by
  unfold route
  split
  · rfl
  · split
    · rfl
    · rfl
    · rfl
    · split <;> rfl

@[simp] theorem status_deliver (p : Plan) (r : Result) (files : FileTree) :
    (p.deliver r files).1.status = r.status := by
  simp [deliver]

/-- Delivering output changes neither the status nor the signal of an outcome. -/
@[simp] theorem ending_deliverOutcome (p : Plan) (o : Outcome) (files : FileTree) :
    (p.deliverOutcome o files).1.ending = o.ending := by
  cases o with
  | done r => simp [deliverOutcome]
  | raised signal out err => rfl
  | crashed why => rfl

end Plan

/-- However a run ends, its ending and the machine it leaves satisfy `post`. -/
def Ends (run : Run) (post : Ending → Machine → Prop) : Prop :=
  ∀ o m, run = some (o, m) → post o.ending m

namespace Ends

variable {e : Engine} {again : Again} {m : Machine} {stdin : String} {post : Ending → Machine → Prop}

theorem ended {o : Outcome} (h : post o.ending m) : Ends (some (o, m)) post := by
  intro o' m' heq
  cases heq
  exact h

theorem endless : Ends none post := by
  intro o m heq
  cases heq

theorem mono {run : Run} {strong : Ending → Machine → Prop} (h : Ends run strong)
    (himp : ∀ ending m, strong ending m → post ending m) : Ends run post :=
  fun o m heq => himp _ _ (h o m heq)

/-- A run whose outcomes are changed afterwards. -/
theorem map {run : Run} {f : Outcome × Machine → Outcome × Machine} {mid : Ending → Machine → Prop}
    (h : Ends run mid) (hf : ∀ o m, mid o.ending m → post (f (o, m)).1.ending (f (o, m)).2) :
    Ends (run.map f) post := by
  intro o' m' heq
  obtain ⟨⟨o, m⟩, hrun, hfeq⟩ := Option.map_eq_some_iff.mp heq
  have := hf o m (h o m hrun)
  rwa [hfeq] at this

/-! ## What surrounds a command -/

/-- A break and the limit on commands end a command before it starts. -/
theorem counted {body : Machine → Run} (hbreak : post (.signal .interrupted) m)
    (hlimit : post (.signal (.executionLimit e.limits.commands)) m.count)
    (hbody : Ends (body m.count.noteStart) post) : Ends (e.counted m body) post := by
  unfold Engine.counted
  split
  · exact .ended hbreak
  · split
    · exact .ended hlimit
    · exact hbody

/-- One run after another: what stops the first is what comes out. -/
theorem andThen {first : Run} {next : Result → Machine → Run} {mid : Ending → Machine → Prop}
    (hfirst : Ends first mid) (hstop : ∀ ending m, ending.stops → mid ending m → post ending m)
    (hnext : ∀ r m, mid (.status r.status) m → Ends (next r m) post) :
    Ends (Run.andThen first next) post := by
  unfold Run.andThen
  split
  · rename_i r m
    have hmid : mid (.status r.status) m := hfirst (.done r) m rfl
    refine (hnext r m hmid).map fun o m' h => ?_
    simpa using h
  · rename_i hne
    intro o m heq
    cases o with
    | done r => exact absurd heq (hne r m)
    | raised s out err => exact hstop _ m rfl (hfirst (.raised s out err) m heq)
    | crashed why => exact hstop _ m rfl (hfirst (.crashed why) m heq)

/-- Recording puts the status of a result into the machine. -/
theorem recorded {run : Run} {mid : Ending → Machine → Prop} (h : Ends run mid)
    (hstatus : ∀ status m, mid (.status status) m → post (.status status) (m.withStatus status))
    (hstop : ∀ ending m, ending.stops → mid ending m → post ending m) : Ends (Run.recorded run) post := by
  refine h.map fun o m hmid => ?_
  cases o with
  | done r => exact hstatus r.status m hmid
  | raised s out err => exact hstop _ m rfl hmid
  | crashed why => exact hstop _ m rfl hmid

/-- With redirections nothing runs when a file cannot be opened; otherwise only the files differ from a
run of the body. -/
theorem redirected {rs : List Redirection} {body : String → Machine → Run}
    (hfail : ∀ files, post (.status 1) ((m.withFiles files).withStatus 1))
    (hbody : ∀ stdin files,
      Ends (body stdin (m.withFiles files)) fun ending m' => ∀ files, post ending (m'.withFiles files)) :
    Ends (redirected rs stdin m body) post := by
  unfold BatchShell.redirected
  split
  · exact .ended (hfail _)
  · refine (hbody _ _).map fun o m' h => ?_
    simpa using h _

/-! ## Pipelines -/

/-- A pipeline changes nothing but the host and the status. -/
theorem runPipeline {stages : List Command}
    (h : ∀ host status, post (.status status) (Machine.withStatus { m with host := host } status)) :
    Ends (e.runPipeline again stages stdin m) post := by
  intro o m' heq
  obtain ⟨⟨r, host⟩, -, hfeq⟩ := Option.map_eq_some_iff.mp heq
  cases hfeq
  exact h host r.status

/-! ## Loops -/

/-- Producing the values of a loop changes nothing but the host, and raises no signal. -/
theorem of_loopValues {head : LoopHead} {m' : Machine} {p : Production}
    (h : e.loopValues again head m = some (p, m')) :
    m'.state = m.state ∧ ∀ failed, p = .error failed → ∀ signal, failed.ending ≠ .signal signal := by
  unfold Engine.loopValues at h
  cases hkind : head.kind with
  | lines options =>
    simp only [hkind, Engine.lineValues] at h
    split at h
    · cases h
      exact ⟨rfl, by simp⟩
    · cases h
      exact ⟨rfl, by simp⟩
    · split at h
      · obtain ⟨⟨o, child⟩, -, hfeq⟩ := Option.map_eq_some_iff.mp h
        cases hfeq
        refine ⟨rfl, fun failed heq => ?_⟩
        cases o with
        | crashed why =>
          cases heq
          simp
        | _ => cases heq
      · cases h
        exact ⟨rfl, by simp⟩
      · split at h <;> cases h <;> exact ⟨rfl, by simp⟩
  | range =>
    simp only [hkind] at h
    split at h <;> cases h <;> exact ⟨rfl, by simp⟩
  | _ =>
    simp only [hkind] at h
    cases h
    exact ⟨rfl, by simp⟩

/-- The body of a loop for each of its values, with an invariant that holds before each. -/
theorem iterate (inv : Machine → Prop) {limit : Nat} {letter : Char} {body : Machine → Run}
    (hbody : ∀ m frame, inv m → Ends (body (m.withState (m.state.bindLoop frame))) fun ending m' =>
      match ending with
      | .status _ => inv m'
      | stop => post stop m')
    (hend : ∀ status m, inv m → post (.status status) m) (remaining : Nat) :
    ∀ (values : Loop.Values) (result : Result) (m : Machine), inv m →
      Ends (iterate limit letter body remaining values result m) post := by
  induction remaining with
  | zero =>
    intro values result m hinv
    unfold BatchShell.iterate
    split
    · exact .ended (hend _ m hinv)
    · exact .ended (hend _ m hinv)
    · rename_i hz; cases hz
  | succ remaining ih =>
    intro values result m hinv
    unfold BatchShell.iterate
    split
    · exact .ended (hend _ m hinv)
    · rename_i hz; cases hz
    · rename_i value rest k hnext hk
      cases hk
      have hrun := hbody m (Loop.bind letter value) hinv
      split
      · rename_i r m' heq
        exact ih rest _ m' (hrun (.done r) m' heq)
      · rename_i o m' hne heq
        refine .ended ?_
        cases o with
        | done r => exact absurd rfl (hne r)
        | raised s out err => exact hrun (.raised s out err) m' heq
        | crashed why => exact hrun (.crashed why) m' heq
      · exact .endless

/-- A whole loop: the invariant has to hold once the loop is entered, and what is shown of an ending is
shown of the machine after the loop is left. -/
theorem runLoop (inv : Machine → Prop) {head : LoopHead} {body : Machine → Run}
    (hfail : ∀ host ending, (∀ signal, ending ≠ .signal signal) → post ending { m with host := host })
    (henter : ∀ host, inv ⟨m.state.pushLoop, host⟩)
    (hbody : ∀ m' frame, inv m' → Ends (body (m'.withState (m'.state.bindLoop frame))) fun ending m'' =>
      match ending with
      | .status _ => inv m''
      | stop => post stop (m''.withState (m''.state.popLoop m.state.phase)))
    (hleave : ∀ status m', inv m' →
      post (.status status) (m'.withState (m'.state.popLoop m.state.phase))) :
    Ends (e.runLoop again head body m) post := by
  unfold Engine.runLoop
  split
  · exact .endless
  · rename_i failed m' heq
    obtain ⟨hstate, hfailed⟩ := of_loopValues heq
    obtain ⟨state, host⟩ := m'
    cases hstate
    exact .ended (hfail host failed.ending (hfailed failed rfl))
  · rename_i values complaints m' heq
    obtain ⟨hstate, -⟩ := of_loopValues heq
    obtain ⟨state, host⟩ := m'
    cases hstate
    let left (ending : Ending) (m' : Machine) := post ending (m'.withState (m'.state.popLoop m.state.phase))
    have hrun : Ends (BatchShell.iterate e.limits.iterations head.letter body e.limits.iterations values
        ⟨"", complaints, m.state.status⟩ ⟨m.state.pushLoop, host⟩) left :=
      iterate inv hbody hleave _ values _ _ (henter host)
    exact hrun.map fun o m' h => h

/-! ## Scripts -/

/-- The lines of a frame, with an invariant that holds between lines and whatever line is next. -/
theorem runLines (inv : Machine → Prop)
    (hline : ∀ text m, inv m → Ends (again (.line text) stdin m) fun ending m' =>
      match ending with
      | .status _ => inv m'
      | .signal (.goto _) => inv m'
      | .signal (.exit status true) => post (.status status) (m'.withStatus status)
      | stop => post stop m')
    (hgo : ∀ m next, inv m → inv (m.withState (m.state.goTo next)))
    (hpass : ∀ m length, inv m → inv (m.pass length))
    (hend : ∀ m, inv m → post (.status m.state.status) m)
    (hmissing : ∀ label m, inv m → post (.signal (.labelNotFound label)) m) (steps : Nat) :
    ∀ (out err : String) (m : Machine), inv m → Ends (runLines again stdin steps out err m) post := by
  induction steps with
  | zero => intro out err m _; exact .endless
  | succ steps ih =>
    intro out err m hinv
    unfold BatchShell.runLines
    split
    · exact .ended (hend m hinv)
    · rename_i index line _
      have hgone := hgo m (index + 1) hinv
      split
      · have hrun := fun length => hline line.text _ (hpass _ length hgone)
        dsimp only
        split
        · exact .endless
        · rename_i r m' heq
          exact ih _ _ m' (hrun _ _ m' heq)
        · rename_i label o er m' heq
          have hinv' : inv m' := hrun _ _ m' heq
          split
          · exact .ended (hend m' hinv')
          · split
            · exact ih _ _ _ (hgo m' _ hinv')
            · exact .ended (hmissing label m' hinv')
        · rename_i status o er m' heq
          exact .ended (hrun _ _ m' heq)
        · rename_i s o er m' hgoto hexit heq
          have := hrun _ _ m' heq
          refine .ended ?_
          -- neither a jump nor an exit of the script: the signal passes through
          match s, hgoto, hexit, this with
          | .goto label, hgoto, _, _ => exact absurd rfl (hgoto label)
          | .exit status true, _, hexit, _ => exact absurd rfl (hexit status)
          | .exit _ false, _, _, this => exact this
          | .labelNotFound _, _, _, this => exact this
          | .recursionLimit _, _, _, this => exact this
          | .interrupted, _, _, this => exact this
          | .executionLimit _, _, _, this => exact this
        · rename_i why m' heq
          exact .ended (hrun _ _ m' heq)
      · exact ih _ _ _ hgone

/-- A script in a frame of its own, given what its lines keep. -/
theorem runScript (inv : Machine → Prop) {script : Script} {start : Nat} {params : Params}
    (hdeep : post (.signal (.recursionLimit m.state.calls.length)) m)
    (henter : inv (m.withState (m.state.pushCall script start params)))
    (hline : ∀ text m', inv m' → Ends (again (.line text) stdin m') fun ending m'' =>
      match ending with
      | .status _ => inv m''
      | .signal (.goto _) => inv m''
      | .signal (.exit status true) =>
        post (.status status)
          ((m''.withStatus status).withState ((m''.withStatus status).state.popCall m.state.phase))
      | stop => post stop (m''.withState (m''.state.popCall m.state.phase)))
    (hgo : ∀ m' next, inv m' → inv (m'.withState (m'.state.goTo next)))
    (hpass : ∀ m' length, inv m' → inv (m'.pass length))
    (hleave : ∀ m', inv m' →
      post (.status m'.state.status) (m'.withState (m'.state.popCall m.state.phase)))
    (hmissing : ∀ label m', inv m' →
      post (.signal (.labelNotFound label)) (m'.withState (m'.state.popCall m.state.phase))) :
    Ends (e.runScript again script start params stdin m) post := by
  unfold Engine.runScript
  simp only
  split
  · exact .ended hdeep
  · let left (ending : Ending) (m' : Machine) := post ending (m'.withState (m'.state.popCall m.state.phase))
    have hrun : Ends (BatchShell.runLines again stdin (e.limits.scriptSteps script) "" ""
        (m.withState (m.state.pushCall script start params))) left :=
      runLines inv hline hgo hpass hleave hmissing _ "" "" _ henter
    exact hrun.map fun o m' h => h

/-! ## Tasks -/

/-- What a task does to a machine, whatever the level: it is enough that each kind of task keeps it when
the tasks that come up on the way do. -/
theorem perform {holds : Task → Machine → Ending → Machine → Prop}
    (hline : ∀ again, (∀ task stdin m, Ends (again task stdin m) (holds task m)) →
      ∀ text stdin m, Ends (e.runLine again text stdin m) (holds (.line text) m))
    (hcommand : ∀ again, (∀ task stdin m, Ends (again task stdin m) (holds task m)) →
      ∀ c stdin m, Ends (e.runCommand again c stdin m) (holds (.command c) m))
    (hcalled : ∀ again, (∀ task stdin m, Ends (again task stdin m) (holds task m)) →
      ∀ c stdin m, Ends (e.runSimple again true c stdin m) (holds (.called c) m))
    (hscript : ∀ again, (∀ task stdin m, Ends (again task stdin m) (holds task m)) →
      ∀ script start params stdin m,
        Ends (e.runScript again script start params stdin m) (holds (.script script start params) m))
    (levels : Nat) : ∀ task stdin m, Ends (e.perform levels task stdin m) (holds task m) := by
  induction levels with
  | zero => intro task stdin m; exact .endless
  | succ levels ih =>
    intro task stdin m
    cases task with
    | line text => exact hline _ ih text stdin m
    | command c => exact hcommand _ ih c stdin m
    | called c => exact hcalled _ ih c stdin m
    | script script start params => exact hscript _ ih script start params stdin m

end Ends

end BatchShell
