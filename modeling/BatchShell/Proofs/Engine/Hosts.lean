import Mathlib.Logic.Relation
import BatchShell.Proofs.Engine.Budget

/-!
# What a run does to the host

The state is copied, dropped and restored in a run; the host is not. Whatever runs, in a stage of a pipeline and in
the command of a loop set too, works on the one host there is, and only four things are ever done to it: its files
change, a command starts, a program runs, moments pass (`Engine.Touches`). So a run leads from one host to another
by a series of these (`Engine.perform_affects`), and what each of them keeps every run keeps.

The break is an example. Nothing takes it back before the request has ended, and only a program brings it up
(`Engine.Affects.interrupted_iff`).
-/
namespace BatchShell

/-- The host after a program has run. -/
def Engine.afterProgram (e : Engine) (h : Host) (request : ProgramRequest) : Host :=
  { h with
    files := (e.runner request h.interrupted h.files).files
    interrupted := h.interrupted || (e.runner request h.interrupted h.files).interrupts
    requests := request :: h.requests }

/-- One thing that is done to the host. -/
inductive Engine.Touches (e : Engine) : Host → Host → Prop where
  | files (h : Host) (files : FileTree) : Touches e h { h with files := files }
  | started (h : Host) : Touches e h { h with started := h.started + 1 }
  | program (h : Host) (request : ProgramRequest) : Touches e h (e.afterProgram h request)
  | passed (h : Host) (length : Nat) : Touches e h { h with now := fun n => h.now (length + n) }

/-- A series of such things. -/
abbrev Engine.Affects (e : Engine) : Host → Host → Prop := Relation.ReflTransGen e.Touches

/-- A run that leads to the host it leaves from the host it found. -/
abbrev Engine.Leads (e : Engine) (h : Host) (run : Run) : Prop := Ends run fun _ m => e.Affects h m.host

section

variable {e : Engine} {again : Again} {m : Machine} {stdin : String} {h : Host}

theorem Engine.Affects.withFiles (hm : e.Affects h m.host) (files : FileTree) :
    e.Affects h (m.withFiles files).host := hm.tail (.files m.host files)

theorem Engine.Affects.pass (hm : e.Affects h m.host) (length : Nat) : e.Affects h (m.pass length).host :=
  hm.tail (.passed m.host length)

/-! ## What surrounds a command -/

theorem counted_leads {body : Machine → Run} (hm : e.Affects h m.host)
    (hbody : e.Affects h m.count.noteStart.host → e.Leads h (body m.count.noteStart)) :
    e.Leads h (e.counted m body) :=
  .counted hm hm (hbody (hm.tail (.started m.host)))

theorem recorded_leads {run : Run} (hrun : e.Leads h run) : e.Leads h (Run.recorded run) :=
  hrun.recorded (fun _ _ hm => hm) fun _ _ _ hm => hm

theorem redirected_leads {rs : List Redirection} {body : String → Machine → Run} (hm : e.Affects h m.host)
    (hbody : ∀ stdin m', e.Affects h m'.host → e.Leads h (body stdin m')) :
    e.Leads h (redirected rs stdin m body) := by
  refine .redirected (fun files => hm.withFiles files) fun stdin files => ?_
  exact (hbody stdin _ (hm.withFiles files)).mono fun _ m' hm' files' => hm'.withFiles files'

theorem andThen_leads {first : Run} {next : Result → Machine → Run} (hfirst : e.Leads h first)
    (hnext : ∀ r m', e.Affects h m'.host → e.Leads h (next r m')) : e.Leads h (Run.andThen first next) :=
  hfirst.andThen (fun _ _ _ hm => hm) hnext

theorem streamProgram_affects (program : String) (args : List String) (bytes : Bytes) (hm : e.Affects h m.host) :
    e.Affects h (e.streamProgram program args bytes m).2.host :=
  hm.tail (.program m.host _)

section

variable (hagain : ∀ task stdin m, e.Affects h m.host → e.Leads h (again task stdin m))
include hagain

/-! ## Simple commands -/

theorem callLabel_leads (hm : e.Affects h m.host) (label : String) (args : List String) :
    e.Leads h (callLabel again label args stdin m) := by
  unfold callLabel
  split
  · exact .ended hm
  · split
    · exact .ended hm
    · exact hagain _ stdin m hm

theorem callBatch_leads (hm : e.Affects h m.host) (path : String) (args : List String) :
    e.Leads h (callBatch again path args stdin m) := by
  unfold callBatch
  split
  · exact .ended hm
  · exact hagain _ stdin m hm

theorem chainBatch_leads (hm : e.Affects h m.host) (path : String) (args : List String) :
    e.Leads h (chainBatch again path args stdin m) := by
  refine (callBatch_leads hagain hm path args).map fun o m' hm' => ?_
  cases o <;> exact hm'

theorem runCall_leads (hm : e.Affects h m.host) (raw : String) : e.Leads h (runCall again raw stdin m) := by
  unfold runCall
  dsimp only
  split
  · exact .ended hm
  · have hpassed : e.Affects h (m.passCall raw).host := hm.pass _
    split
    · exact .ended hpassed
    · exact .ended hpassed
    · split
      · exact callLabel_leads hagain hpassed _ _
      · exact hagain _ stdin _ hpassed
    · exact hagain _ stdin _ hpassed

theorem runBuiltin_leads (hm : e.Affects h m.host) (builtin : Builtin) (args : List String) (raw : String) :
    e.Leads h (e.runBuiltin again builtin args raw stdin m) := by
  by_cases hcall : builtin = .call
  · subst hcall
    exact runCall_leads hagain hm raw
  · intro o m' hrun
    obtain ⟨o', m'', halone, -, hhost⟩ := runBuiltin_alone e hcall args raw stdin m
    cases (halone again).symm.trans hrun
    exact hhost ▸ hm

theorem dispatch_leads (hm : e.Affects h m.host) (called : Bool) (name : String) (args : List String)
    (raw : String) : e.Leads h (e.dispatch again called name args raw stdin m) := by
  unfold Engine.dispatch
  split
  · exact .ended hm
  · split
    · exact runBuiltin_leads hagain hm _ args raw
    · split
      · exact callBatch_leads hagain hm _ args
      · exact chainBatch_leads hagain hm _ args
    · exact .ended (streamProgram_affects _ args _ hm)
    · exact .ended hm

theorem runSimple_leads (hm : e.Affects h m.host) (called : Bool) (c : SimpleCommand) :
    e.Leads h (e.runSimple again called c stdin m) := by
  unfold Engine.runSimple
  dsimp only
  refine redirected_leads hm fun stdin m' hm' => ?_
  split
  · exact .ended hm'
  · exact recorded_leads (dispatch_leads hagain hm' called _ _ _)

/-! ## Pipelines and loops -/

theorem runStage_affects (hm : e.Affects h m.host) (c : Command) {bytes : Bytes} {r : StageResult} {host : Host}
    (hstage : e.runStage again c bytes m = some (r, host)) : e.Affects h host := by
  unfold Engine.runStage at hstage
  split at hstage
  · cases hstage
    exact streamProgram_affects _ _ bytes (hm.tail (.started m.host) : e.Affects h m.noteStart.host)
  · obtain ⟨⟨o, m'⟩, hrun, hfeq⟩ := Option.map_eq_some_iff.mp hstage
    cases hfeq
    exact hagain _ _ m hm o m' hrun

/-- The host goes from stage to stage, though the state does not. -/
theorem runStages_affects (base : State) (stages : List Command) : ∀ (before r : StageResult) (host host' : Host),
    e.Affects h host → e.runStages again base before host stages = some (r, host') → e.Affects h host' := by
  induction stages with
  | nil =>
    intro before r host host' hhost hstages
    cases hstages
    exact hhost
  | cons c stages ih =>
    intro before r host host' hhost hstages
    unfold Engine.runStages at hstages
    split at hstages
    · cases hstages
    · rename_i r' host'' hstage
      have hnext : e.Affects h host'' := runStage_affects hagain (m := ⟨base, host⟩) hhost c hstage
      exact ih _ r host'' host' hnext hstages

theorem runPipeline_leads (hm : e.Affects h m.host) (stages : List Command) :
    e.Leads h (e.runPipeline again stages stdin m) := by
  intro o m' hrun
  obtain ⟨⟨r, host⟩, hstages, hfeq⟩ := Option.map_eq_some_iff.mp hrun
  cases hfeq
  exact runStages_affects hagain m.state.child stages _ r m.host host hm hstages

theorem loopValues_affects (hm : e.Affects h m.host) (head : LoopHead) {p : Production} {m' : Machine}
    (hvalues : e.loopValues again head m = some (p, m')) : e.Affects h m'.host := by
  unfold Engine.loopValues at hvalues
  cases hkind : head.kind with
  | lines options =>
    simp only [hkind, Engine.lineValues] at hvalues
    split at hvalues
    · cases hvalues
      exact hm
    · cases hvalues
      exact hm
    · split at hvalues
      · obtain ⟨⟨o, child⟩, hrun, hfeq⟩ := Option.map_eq_some_iff.mp hvalues
        cases hfeq
        exact hagain _ _ ⟨(m.state.enterPhase .branching).child, m.host⟩ hm o child hrun
      · cases hvalues
        exact hm
      · split at hvalues <;> cases hvalues <;> exact hm
  | range =>
    simp only [hkind] at hvalues
    split at hvalues <;> cases hvalues <;> exact hm
  | _ =>
    simp only [hkind] at hvalues
    cases hvalues
    exact hm

theorem runLoop_leads (hm : e.Affects h m.host) (head : LoopHead) {body : Machine → Run}
    (hbody : ∀ m', e.Affects h m'.host → e.Leads h (body m')) : e.Leads h (e.runLoop again head body m) := by
  unfold Engine.runLoop
  split
  · exact .endless
  · rename_i heq
    exact .ended (loopValues_affects hagain hm head heq)
  · rename_i values complaints m' heq
    have hentered : e.Affects h m'.host := loopValues_affects hagain hm head heq
    have hrun : Ends (iterate e.limits.iterations head.letter body e.limits.iterations values
        ⟨"", complaints, m'.state.status⟩ (m'.withState m'.state.pushLoop)) fun _ m'' => e.Affects h m''.host := by
      refine .iterate (fun m'' => e.Affects h m''.host) (fun m'' frame hm'' => ?_) (fun _ _ hm'' => hm'') _ _ _ _
        hentered
      refine (hbody (m''.withState (m''.state.bindLoop frame)) hm'').mono fun ending m₃ hm₃ => ?_
      cases ending <;> exact hm₃
    exact hrun.map fun o m'' hm'' => hm''

/-! ## Commands, lines and scripts -/

/-- By induction on the command. -/
theorem runCommand_leads (c : Command) : ∀ (stdin : String) (m : Machine), e.Affects h m.host →
    e.Leads h (e.runCommand again c stdin m) := by
  induction c with
  | simple c =>
    intro stdin m hm
    exact counted_leads hm fun hm' => runSimple_leads hagain hm' false c
  | block body rs ih =>
    intro stdin m hm
    exact counted_leads hm fun hm' => recorded_leads (redirected_leads hm' fun stdin m' hm' => ih stdin m' hm')
  | ifThen c body ih =>
    intro stdin m hm
    refine counted_leads hm fun hm' => ?_
    split
    · exact .ended hm'
    · exact recorded_leads (ih stdin _ hm')
    · exact .ended hm'
  | ifElse c body other ih ih' =>
    intro stdin m hm
    refine counted_leads hm fun hm' => ?_
    split
    · exact .ended hm'
    · exact recorded_leads (ih stdin _ hm')
    · exact recorded_leads (ih' stdin _ hm')
  | loop head body ih =>
    intro stdin m hm
    exact counted_leads hm fun hm' => recorded_leads (runLoop_leads hagain hm' head fun m' hm' => ih stdin m' hm')
  | pipe left right _ _ =>
    intro stdin m hm
    exact runPipeline_leads hagain hm _
  | both left right ih ih' =>
    intro stdin m hm
    exact andThen_leads (ih stdin m hm) fun _ m' hm' => ih' stdin m' hm'
  | andThen left right ih ih' =>
    intro stdin m hm
    refine andThen_leads (ih stdin m hm) fun r m' hm' => ?_
    split
    · exact ih' stdin m' hm'
    · exact .ended hm'
  | orElse left right ih ih' =>
    intro stdin m hm
    refine andThen_leads (ih stdin m hm) fun r m' hm' => ?_
    split
    · exact .ended hm'
    · exact ih' stdin m' hm'

theorem runLine_leads (hm : e.Affects h m.host) (text : String) : e.Leads h (e.runLine again text stdin m) := by
  unfold Engine.runLine
  split
  · exact .ended hm
  · have hpassed : e.Affects h (m.pass text.utf8ByteSize).host := hm.pass _
    dsimp only
    split
    · exact .ended hpassed
    · exact .ended hpassed
    · exact runCommand_leads hagain _ stdin _ hpassed

theorem runScript_leads (hm : e.Affects h m.host) (script : Script) (start : Nat) (params : Params) :
    e.Leads h (e.runScript again script start params stdin m) := by
  refine .runScript (fun m' => e.Affects h m'.host) hm hm ?_ (fun m' _ hm' => hm')
    (fun m' length hm' => hm'.pass length) (fun m' hm' => hm') fun _ m' hm' => hm'
  intro text m' hm'
  refine (hagain (.line text) stdin m' hm').mono fun ending m'' hm'' => ?_
  match ending with
  | .status _ => exact hm''
  | .signal (.goto _) => exact hm''
  | .signal (.exit _ true) => exact hm''
  | .signal (.exit _ false) => exact hm''
  | .signal (.labelNotFound _) => exact hm''
  | .signal (.recursionLimit _) => exact hm''
  | .signal .interrupted => exact hm''
  | .signal (.executionLimit _) => exact hm''
  | .crashed _ => exact hm''

end

/-- Every task leads to the host it leaves by things that are done to a host. -/
theorem Engine.perform_affects (e : Engine) (levels : Nat) (task : Task) (stdin : String) (m : Machine) :
    Ends (e.perform levels task stdin m) fun _ m' => e.Affects m.host m'.host := by
  have hall : ∀ h, ∀ task stdin m, e.Affects h m.host → e.Leads h (e.perform levels task stdin m) := by
    intro h
    induction levels with
    | zero =>
      intro task stdin m _
      exact .endless
    | succ levels ih =>
      intro task stdin m hm
      cases task with
      | line text => exact runLine_leads ih hm text
      | command c => exact runCommand_leads ih c stdin m hm
      | called c => exact runSimple_leads ih hm true c
      | script script start params => exact runScript_leads ih hm script start params
  exact hall m.host task stdin m .refl

end

/-! ## The break -/

/-- On the way from one host to another a program ran while a break was requested. -/
def Engine.Breaks (e : Engine) (h h' : Host) : Prop :=
  ∃ before request, e.Affects h before ∧ (e.runner request before.interrupted before.files).interrupts = true ∧
    e.Affects (e.afterProgram before request) h'

namespace Engine.Affects

variable {e : Engine} {h h' : Host}

/-- Nothing that is done to the host takes a break back. -/
theorem interrupted (haffects : e.Affects h h') (hbreak : h.interrupted = true) : h'.interrupted = true := by
  induction haffects with
  | refl => exact hbreak
  | tail _ htouch ih =>
    cases htouch with
    | files => exact ih
    | started => exact ih
    | program request => simp [Engine.afterProgram, ih]
    | passed => exact ih

/-- **A break is there at the end exactly if it was there at the start or came up while a program ran.** -/
theorem interrupted_iff (haffects : e.Affects h h') :
    h'.interrupted = true ↔ h.interrupted = true ∨ e.Breaks h h' := by
  constructor
  · intro hbreak
    induction haffects with
    | refl => exact .inl hbreak
    | @tail before after hbefore htouch ih =>
      have hearlier : before.interrupted = true → h.interrupted = true ∨ e.Breaks h after := by
        intro hset
        obtain hstart | ⟨there, request, hto, hprogram, hfrom⟩ := ih hset
        · exact .inl hstart
        · exact .inr ⟨there, request, hto, hprogram, hfrom.tail htouch⟩
      cases htouch with
      | files => exact hearlier hbreak
      | started => exact hearlier hbreak
      | program request =>
        obtain hset | hprogram := Bool.or_eq_true_iff.mp hbreak
        · exact hearlier hset
        · exact .inr ⟨before, request, hbefore, hprogram, .refl⟩
      | passed => exact hearlier hbreak
  · rintro (hstart | ⟨before, request, -, hprogram, hafter⟩)
    · exact interrupted haffects hstart
    · exact interrupted hafter (by simp [Engine.afterProgram, hprogram])

end Engine.Affects

end BatchShell
