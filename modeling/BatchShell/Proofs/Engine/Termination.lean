import Mathlib.Logic.Relation
import BatchShell.Proofs.Engine.Budget

/-!
# When a task comes to its end

`Engine.perform` runs a task with so many levels of tasks inside each other. More levels change no answer
(`Engine.perform_below`), so a task comes to an end (`Engine.EndsWith`) if there are enough levels for it. It returns
if it ends with a result or a signal, and not because the interpreter breaks off (`Outcome.breaksOff`).

Jumps, loops, scripts, pipelines and called labels cannot keep a task from ending: what comes up on the way
is lighter each time (`Engine.level_inquiry`). Only a called command that is a `CALL` again hands over to a
called command without being counted, and that one perhaps to another. This is all that can keep a task from
ending: it ends exactly if every chain of such calls that it comes to has an end (`Job.ChainEnds`). A variable
whose text calls its own text makes a chain that has none.

* `Job.ChainEnds.of_endsWith`: a chain is no longer than the levels that were enough.
* `Engine.endsWith_of_chains_end`: if the chains end, so does the task, by induction on what is lighter and, inside
  it, along the chain.
-/
namespace BatchShell

/-! ## Answers of the engine -/

section

variable {e : Engine}

theorem Engine.perform_answers (e : Engine) (levels : Nat) : Again.Obeys (e.perform levels) e.Answers := by
  induction levels with
  | zero =>
    intro j r h
    cases h
  | succ levels ih =>
    intro j r h
    have hleaves : j.task.Leaves j.machine r.1.ending r.2 :=
      e.perform_leaves (levels + 1) j.task j.stdin j.machine r.1 r.2 h
    rw [e.run_perform_succ] at h
    exact ⟨hleaves, (e.level_inquiry j).holds ih h⟩

theorem Engine.perform_below_succ (e : Engine) (levels : Nat) :
    Again.Below (e.perform levels) (e.perform (levels + 1)) := by
  induction levels with
  | zero =>
    intro j r h
    cases h
  | succ levels ih =>
    intro j r h
    rw [e.run_perform_succ] at h ⊢
    exact (e.level_inquiry j).grows (e.perform_answers levels) ih h

/-- What has an answer with some levels has the same answer with more. -/
theorem Engine.perform_below {levels levels' : Nat} (h : levels ≤ levels') :
    Again.Below (e.perform levels) (e.perform levels') := by
  induction h with
  | refl => exact fun _ _ hr => hr
  | step _ ih => exact fun j r hr => e.perform_below_succ _ j r (ih j r hr)

/-- With enough levels a job ends with an outcome and a machine. -/
def Engine.EndsWith (e : Engine) (j : Job) (r : Outcome × Machine) : Prop :=
  ∃ levels, Again.run (e.perform levels) j = some r

theorem Engine.EndsWith.unique {j : Job} {r r' : Outcome × Machine} (h : e.EndsWith j r) (h' : e.EndsWith j r') :
    r = r' := by
  obtain ⟨n, hn⟩ := h
  obtain ⟨n', hn'⟩ := h'
  have hmax := Engine.perform_below (Nat.le_max_left n n') j r hn
  have hmax' := Engine.perform_below (Nat.le_max_right n n') j r' hn'
  exact Option.some.inj (hmax.symm.trans hmax')

/-- Running `j`, with the jobs before it answered as they end, comes to `i`. -/
def Engine.Asks (e : Engine) (j i : Job) : Prop := ComesTo e.EndsWith (fun again => e.level again j) i

/-- A job that comes up is lighter or handed over to. -/
theorem Engine.lighter_of_asks {i j : Job} (h : e.Asks j i) : e.Lighter i j ∨ j.handsOver? = some i := by
  classical
  -- answer everything but `i`: as it ends, or else by doing nothing
  let idle (k : Job) : Run := if hr : ∃ r, e.EndsWith k r then some hr.choose else some (.done .ok, k.machine)
  let others : Again := fun task stdin m => if (⟨task, stdin, m⟩ : Job) = i then none else idle ⟨task, stdin, m⟩
  have hothers : ∀ k, k ≠ i → others.run k = idle k := fun k hk => if_neg hk
  have hi : others.run i = none := if_pos rfl
  have hnothing : ∀ k : Job, e.Answers k (.done .ok, k.machine) := by
    rintro ⟨task, stdin, m⟩
    cases task with
    | script script start params => exact ⟨⟨rfl, rfl, rfl, .refl _, rfl⟩, .of_le (Nat.le_refl _) rfl⟩
    | called c => exact ⟨.refl _ _, Nat.le_refl _⟩
    | _ => exact ⟨.refl _ _, .of_le (Nat.le_refl _) rfl⟩
  have hsound : others.Obeys e.Answers := by
    intro k r hr
    by_cases hk : k = i
    · rw [hk, hi] at hr
      cases hr
    · rw [hothers k hk] at hr
      simp only [idle] at hr
      split at hr
      · rename_i hreturns
        cases hr
        obtain ⟨levels, hlevels⟩ := hreturns.choose_spec
        exact e.perform_answers levels k _ hlevels
      · cases hr
        exact hnothing k
  refine (e.level_inquiry j).allowed_of_stuck hsound (fun k hk => ?_) (h.stuck (fun k r hk hr => ?_) hi)
  · rw [hothers k hk]
    simp only [idle]
    split
    · exact ⟨_, rfl⟩
    · exact ⟨_, rfl⟩
  · have hreturns : ∃ r, e.EndsWith k r := ⟨r, hr⟩
    rw [hothers k hk]
    simp only [idle, dif_pos hreturns]
    exact congrArg some (hreturns.choose_spec.unique hr)

/-- What something with a result came to ask for had an answer. -/
theorem ComesTo.answered {α : Type} {f : Again → Option α} {i : Job} (h : ComesTo e.EndsWith f i) {levels : Nat}
    {a : α} (ha : f (e.perform levels) = some a) : ∃ r, e.EndsWith i r := by
  induction h with
  | now hfirst =>
    rw [hfirst] at ha
    obtain ⟨r, hr, -⟩ := Option.bind_eq_some_iff.mp ha
    exact ⟨r, levels, hr⟩
  | later hfirst hanswer _ ih =>
    rw [hfirst] at ha
    obtain ⟨r, hr, hk⟩ := Option.bind_eq_some_iff.mp ha
    cases hanswer.unique ⟨levels, hr⟩
    exact ih hk

/-- A job ends only if each job that it asks for does. -/
theorem Engine.EndsWith.of_asks {i j : Job} {r : Outcome × Machine} (h : e.EndsWith j r) (hasks : e.Asks j i) :
    ∃ r, e.EndsWith i r := by
  obtain ⟨levels, hlevels⟩ := h
  cases levels with
  | zero => cases hlevels
  | succ levels =>
    rw [e.run_perform_succ] at hlevels
    exact ComesTo.answered hasks hlevels

/-- A job ends if each job that it asks for does, when those are lighter or handed over to. -/
theorem Engine.endsWith_of_asked {j : Job}
    (h : ∀ i, e.Lighter i j ∨ j.handsOver? = some i → e.Asks j i → ∃ r, e.EndsWith i r) :
    ∃ r, e.EndsWith j r := by
  have hanswer : ∀ i, e.Lighter i j ∨ j.handsOver? = some i → e.Asks j i →
      ∃ n r, Again.run (e.perform n) i = some r := by
    intro i hi hasks
    obtain ⟨r, n, hn⟩ := h i hi hasks
    exact ⟨n, r, hn⟩
  obtain ⟨levels, r, hr⟩ := (e.level_inquiry j).finishes e.perform_answers Engine.perform_below hanswer
  exact ⟨r, levels + 1, by rw [e.run_perform_succ, hr]⟩

/-! ## Chains of calls -/

/-- Handing over from one called command to the next comes to an end. -/
inductive Job.ChainEnds : Job → Prop
  | last {j : Job} (h : j.handsOver? = none) : ChainEnds j
  | next {i j : Job} (h : j.handsOver? = some i) (hi : ChainEnds i) : ChainEnds j

theorem dispatch_of_calledBy {name raw : String} {m : Machine} {c : SimpleCommand}
    (h : calledBy? name raw m = some c) (again : Again) (called : Bool) (args : List String) (stdin : String) :
    e.dispatch again called name args raw stdin m = again (.called c) stdin (m.passCall raw) := by
  unfold calledBy? at h
  split at h
  · cases h
  · rename_i hecho
    have hecho : Builtin.echoText? name = none := by simpa using hecho
    split at h
    · rename_i hfind
      unfold callTarget? at h
      split at h
      · cases h
      · rename_i line hexpand
        split at h
        · rename_i c' hparse
          split at h
          · cases h
          · rename_i hlabel
            cases h
            simp [Engine.dispatch, hecho, hfind, Engine.runBuiltin, runCall, hexpand, hparse, hlabel,
              Machine.passCall]
        · cases h
    · cases h

/-- A command that hands over only passes on what comes back, whether it was called or not. -/
theorem runSimple_of_handsOver {c : SimpleCommand} {stdin : String} {m : Machine} {i : Job}
    (h : Job.handsOver? ⟨.called c, stdin, m⟩ = some i) :
    ∃ pass, ∀ again called, e.runSimple again called c stdin m = (again.run i).map pass := by
  simp only [Job.handsOver?] at h
  split at h
  · cases h
  · rename_i plan files hprepare
    split at h
    · cases h
    · rename_i hname
      obtain ⟨next, hnext, rfl⟩ := Option.map_eq_some_iff.mp h
      -- the status is recorded, then the output is delivered
      let deliver (o : Outcome) (m : Machine) : Outcome × Machine :=
        ((plan.deliverOutcome o m.host.files).1, m.withFiles (plan.deliverOutcome o m.host.files).2)
      refine ⟨fun r => deliver r.1 (r.2.withOutcome r.1), fun again called => ?_⟩
      simp only [Engine.runSimple, redirected, hprepare, hname, Bool.false_eq_true, if_false,
        dispatch_of_calledBy hnext, Run.recorded, Option.map_map]
      rfl

theorem Engine.level_of_handsOver (e : Engine) {i j : Job} (h : j.handsOver? = some i) :
    ∃ pass, ∀ again, e.level again j = (again.run i).map pass := by
  obtain ⟨task, stdin, m⟩ := j
  cases task with
  | called c =>
    obtain ⟨pass, hpass⟩ := runSimple_of_handsOver h
    exact ⟨pass, fun again => hpass again true⟩
  | _ => cases h

theorem Engine.asks_of_handsOver (e : Engine) {i j : Job} (h : j.handsOver? = some i) : e.Asks j i := by
  obtain ⟨pass, hpass⟩ := e.level_of_handsOver h
  refine .now (k := fun r _ => some (pass r)) fun again => ?_
  rw [hpass]
  cases again.run i <;> rfl

/-- A chain of calls is as long as levels allow at most. -/
theorem Job.ChainEnds.of_endsWith {j : Job} {r : Outcome × Machine} (h : e.EndsWith j r) : j.ChainEnds := by
  obtain ⟨levels, hlevels⟩ := h
  induction levels generalizing j r with
  | zero => cases hlevels
  | succ levels ih =>
    cases hover : j.handsOver? with
    | none => exact .last hover
    | some i =>
      obtain ⟨pass, hpass⟩ := e.level_of_handsOver hover
      rw [e.run_perform_succ, hpass] at hlevels
      obtain ⟨r', hr', -⟩ := Option.map_eq_some_iff.mp hlevels
      exact .next hover (ih hr')

theorem Engine.endsWith_of_chains_end (j : Job) (h : ∀ i, Relation.ReflTransGen e.Asks j i → i.ChainEnds) :
    ∃ r, e.EndsWith j r := by
  induction j using e.wellFounded_lighter.induction with
  | _ j ih =>
    -- along the chain that starts here, everything lighter ends
    have hchain := h j .refl
    induction hchain with
    | @last j hnone =>
      refine Engine.endsWith_of_asked fun i hi hasks => ?_
      rcases hi with hlighter | hover
      · exact ih i hlighter fun k hk => h k (.head hasks hk)
      · rw [hnone] at hover
        cases hover
    | @next i j hover _ ihchain =>
      have hnext : ∃ r, e.EndsWith i r :=
        ihchain (fun k hk => ih k (hk.of_handsOver hover)) fun k hk => h k (.head (e.asks_of_handsOver hover) hk)
      refine Engine.endsWith_of_asked fun k hk hasks => ?_
      rcases hk with hlighter | hover'
      · exact ih k hlighter fun k' hk' => h k' (.head hasks hk')
      · rw [hover] at hover'
        cases hover'
        exact hnext

end

/-- A task comes to an end exactly if the chains end. -/
theorem Engine.exists_endsWith_iff (e : Engine) (j : Job) :
    (∃ r, e.EndsWith j r) ↔ ∀ i, Relation.ReflTransGen e.Asks j i → i.ChainEnds := by
  refine ⟨?_, Engine.endsWith_of_chains_end j⟩
  rintro ⟨r, hr⟩ i hahead
  have hends : ∃ r, e.EndsWith i r := by
    induction hahead with
    | refl => exact ⟨r, hr⟩
    | tail _ hasks ih =>
      obtain ⟨r', hr'⟩ := ih
      exact hr'.of_asks hasks
  obtain ⟨r', hr'⟩ := hends
  exact .of_endsWith hr'

/-- Did the interpreter break off? -/
def Outcome.breaksOff : Outcome → Bool
  | .crashed _ => true
  | .done _ | .raised _ _ _ => false

/-- **A task returns exactly if every chain of calls that it comes to has an end and the interpreter does not break
off.** Whatever the limits, the programs, the task, its input and the machine are: with enough levels it comes to one
end, unless it comes to a called command that hands over to another called command, this one to a third, and so on
without end. All else that comes up on the way is lighter than what it came up in, and nothing gets lighter forever. At
its end there is a result or a signal, unless the interpreter broke off. -/
theorem Engine.returns_iff_chains_end (e : Engine) (task : Task) (stdin : String) (m : Machine) :
    let chainsEnd := ∀ i, Relation.ReflTransGen e.Asks ⟨task, stdin, m⟩ i → i.ChainEnds
    let breaksOff := ∃ levels o m', e.perform levels task stdin m = some (o, m') ∧ o.breaksOff = true
    ((∃ levels o m', e.perform levels task stdin m = some (o, m') ∧ o.breaksOff = false) ↔
        chainsEnd ∧ ¬ breaksOff) ∧
      ((∃ levels r, e.perform levels task stdin m = some r) ↔ chainsEnd) ∧
      (∀ levels levels' r r', e.perform levels task stdin m = some r → e.perform levels' task stdin m = some r' →
        r = r') ∧
      (∀ i j, e.Asks j i → e.Lighter i j ∨ j.handsOver? = some i) ∧ WellFounded e.Lighter := by
  intro chainsEnd breaksOff
  let j : Job := ⟨task, stdin, m⟩
  have hunique : ∀ levels levels' r r', e.perform levels task stdin m = some r →
      e.perform levels' task stdin m = some r' → r = r' := fun levels levels' r r' hr hr' =>
    Engine.EndsWith.unique (j := j) ⟨levels, hr⟩ ⟨levels', hr'⟩
  have hends : (∃ levels r, e.perform levels task stdin m = some r) ↔ chainsEnd :=
    exists_comm.trans (e.exists_endsWith_iff j)
  refine ⟨⟨?_, ?_⟩, hends, hunique, fun i j => Engine.lighter_of_asks, e.wellFounded_lighter⟩
  · rintro ⟨levels, o, m', hrun, ho⟩
    refine ⟨hends.mp ⟨levels, _, hrun⟩, ?_⟩
    rintro ⟨levels', o', m'', hrun', ho'⟩
    cases hunique _ _ _ _ hrun hrun'
    rw [ho] at ho'
    cases ho'
  · rintro ⟨hchains, hwhole⟩
    obtain ⟨levels, ⟨o, m'⟩, hrun⟩ := hends.mpr hchains
    exact ⟨levels, o, m', hrun, Bool.eq_false_iff.mpr fun ho => hwhole ⟨levels, o, m', hrun, ho⟩⟩

/-- A line whose chains end need not return: the switch of `CD` is looked for inside a character. -/
example : (Engine.bare.perform 1 (.line "cd €") "" .inScript).map Prod.fst = some (.crashed .splitCharacter) := by
  decide +kernel

/-! ## A chain without end -/

/-- What hands over to itself does so forever. -/
theorem Job.not_chainEnds_of_self {j : Job} (h : j.handsOver? = some j) : ¬ j.ChainEnds := by
  intro hends
  induction hends with
  | last hnone =>
    rw [hnone] at h
    cases h
  | next hover _ ih =>
    rw [hover] at h
    cases h
    exact ih hover

/-- A machine whose variable `X` holds a call of the text of `X`. -/
def Machine.callsItself : Machine :=
  ⟨State.initial (Environment.empty.set "X" "call %X%") "/", ⟨.empty, fun _ => .epoch, false, [], 0⟩⟩

/-- The command that a line is read as once its references are replaced. -/
def Machine.reads? (m : Machine) (line : String) : Option Command :=
  match Expansion.expandTokens m.host.files m.host.now m.state (Token.scan line) with
  | .error _ => none
  | .ok ts =>
    match Command.ofTokens? ts with
    | .error _ => none
    | .ok c => c

theorem Engine.runLine_of_reads (e : Engine) (again : Again) {line : String} {m : Machine} {c : Command}
    (h : m.reads? line = some c) (stdin : String) :
    e.runLine again line stdin m = e.runCommand again c stdin (m.pass line.utf8ByteSize) := by
  unfold Machine.reads? at h
  unfold Engine.runLine
  cases hexpand : Expansion.expandTokens m.host.files m.host.now m.state (Token.scan line) with
  | error why => simp [hexpand] at h
  | ok ts =>
    cases hread : Command.ofTokens? ts with
    | error fault => simp [hexpand, hread] at h
    | ok found =>
      obtain rfl : found = some c := by simpa [hexpand, hread] using h
      simp only [hread]

/-- What `call %X%` is there once it is expanded. -/
def SimpleCommand.callOfX (args : List String) : SimpleCommand := ⟨"call", args, " call %X%", []⟩

theorem Machine.callsItself_line (again : Again) : Engine.bare.runLine again "call %X%" "" .callsItself =
    Engine.bare.runCommand again (.simple (.callOfX ["call %X%"])) "" .callsItself := by
  refine Engine.bare.runLine_of_reads again ?_ ""
  decide +kernel

/-- Its words make no difference, since the text after the name is expanded again. -/
theorem Machine.callsItself_handsOver (args : List String) :
    Job.handsOver? ⟨.called (.callOfX args), "", Machine.callsItself.count.noteStart⟩ =
      some ⟨.called (.callOfX ["call", "%X%"]), "", Machine.callsItself.count.noteStart⟩ := by
  have hname : Expansion.fillLoopVars .empty "/" [] "call" = "call" := by decide +kernel
  have hraw : Expansion.fillLoopVars .empty "/" [] " call %X%" = " call %X%" := by decide +kernel
  have hcalled : calledBy? "call" " call %X%" Machine.callsItself.count.noteStart =
      some (.callOfX ["call", "%X%"]) := by decide +kernel
  let fill := Expansion.fillLoopVars .empty "/" []
  show (if (fill "call").isEmpty = true then none
    else (calledBy? (fill "call") (fill " call %X%") Machine.callsItself.count.noteStart).map fun next =>
      (⟨.called next, "", Machine.callsItself.count.noteStart⟩ : Job)) = _
  simp only [fill, hname, hraw, hcalled]
  rfl

/-- **A call of itself never returns**, however many commands may run: the first one is counted and hands over,
and what it hands over to hands over to itself. -/
theorem Engine.call_of_itself_never_returns :
    ¬ ∃ levels, (Engine.bare.perform levels (.line "call %X%") "" .callsItself).isSome = true := by
  rintro ⟨levels, hlevels⟩
  obtain ⟨r, hr⟩ := Option.isSome_iff_exists.mp hlevels
  cases levels with
  | zero => cases hr
  | succ levels =>
    let typed : SimpleCommand := .callOfX ["call %X%"]
    have hline : Engine.bare.perform (levels + 1) (.line "call %X%") "" .callsItself =
        Engine.bare.runCommand (Engine.bare.perform levels) (.simple typed) "" .callsItself :=
      Machine.callsItself_line _
    have hcounted : Engine.bare.runCommand (Engine.bare.perform levels) (.simple typed) "" .callsItself =
        Engine.bare.runSimple (Engine.bare.perform levels) false typed "" Machine.callsItself.count.noteStart :=
      rfl
    obtain ⟨pass, hpass⟩ := runSimple_of_handsOver (e := Engine.bare) (Machine.callsItself_handsOver _)
    rw [hline, hcounted, hpass] at hr
    obtain ⟨r', hr', -⟩ := Option.map_eq_some_iff.mp hr
    exact Job.not_chainEnds_of_self (Machine.callsItself_handsOver _) (.of_endsWith ⟨levels, hr'⟩)

end BatchShell
