import BatchShell.Proofs.Pipeline.Network
import BatchShell.Proofs.Pipeline.Streaming
import Mathlib.Data.List.Perm.Subperm

/-!
# Pipelines compose

`Engine.runPipeline` runs the stages of a pipeline one after the other, each on what the one before it wrote. Run at the
same time, over pipes (`Live.network`), they give the same result on every schedule: that of `compose`, in which each
stage is a function of its input, run in a copy of the caller's state (`Engine.pipeline_composes`).

This asks two things of the stages. They do not interact: what a stage gives on its input is not changed by what the
other stages, on theirs, do to the files or to the flag of a break (`Engine.Apart`). So it does not matter either when a
stage looks at the world, and in the network every stage sees it as it was at the start. And a program does step by step
what the runner says it does as a whole, and reads all its input before it ends (`Live.Serves`).
-/
namespace BatchShell

variable {σ : Type}

/-! ## Stages as functions -/

/-- Each stage runs on what the one before it wrote. -/
def compose (run : Command → Bytes → Option StageResult) : Bytes → List Command → Option (List StageResult)
  | _, [] => some []
  | input, c :: cs => (run c input).bind fun r => (compose run r.stdout cs).map (r :: ·)

/-- Where a stage of a pipeline starts: in the state of the caller outside any script. -/
def Machine.child (m : Machine) : Machine := m.withState m.state.child

/-- What a stage does by itself. -/
def Engine.stageAlone (e : Engine) (again : Again) (m : Machine) (c : Command) (input : Bytes) : Option StageResult :=
  (e.runStage again c input m.child).map (·.1)

/-- The stages that are run, each with its input: all of them, or those up to one that does not come to an end. -/
def stageRuns (run : Command → Bytes → Option StageResult) : Bytes → List Command → List (Command × Bytes)
  | _, [] => []
  | input, c :: cs => (c, input) :: ((run c input).map fun r => stageRuns run r.stdout cs).getD []

/-- What runs of stages make of the host, the last one first. -/
inductive Engine.Touched (e : Engine) (again : Again) (m : Machine) : List (Command × Bytes) → Host → Prop
  | start : e.Touched again m [] m.host
  | ran {runs : List (Command × Bytes)} {host host' : Host} {c : Command} {input : Bytes} {r : StageResult}
    (touched : e.Touched again m runs host) (run : e.runStage again c input ⟨m.state.child, host⟩ = some (r, host')) :
    e.Touched again m ((c, input) :: runs) host'

/-- The runs of stages do not interact: whichever of the others were there before it, in whatever order, each gives
what it gives by itself. -/
def Engine.Apart (e : Engine) (again : Again) (m : Machine) (runs : List (Command × Bytes)) : Prop :=
  ∀ before c input after, runs = before ++ (c, input) :: after →
    ∀ others, others.Subperm (before ++ after) → ∀ host, e.Touched again m others host →
      (e.runStage again c input ⟨m.state.child, host⟩).map (·.1) = e.stageAlone again m c input

/-- Runs do not interact if all keep something that decides what they give. -/
theorem Engine.Apart.of_kept {e : Engine} {again : Again} {m : Machine} {runs : List (Command × Bytes)}
    (kept : Host → Prop) (hstart : kept m.host)
    (hkept : ∀ host, kept host → ∀ run ∈ runs, ∃ host', kept host' ∧
      e.runStage again run.1 run.2 ⟨m.state.child, host⟩ = (e.stageAlone again m run.1 run.2).map (·, host')) :
    e.Apart again m runs := by
  have htouched {others : List (Command × Bytes)} {host : Host} (h : e.Touched again m others host)
      (hothers : ∀ run ∈ others, run ∈ runs) : kept host := by
    induction h with
    | start => exact hstart
    | ran _ run ih =>
      obtain ⟨hmem, hothers⟩ := List.forall_mem_cons.mp hothers
      obtain ⟨host', hhost', hrun⟩ := hkept _ (ih hothers) _ hmem
      obtain ⟨r, -, hr⟩ := Option.map_eq_some_iff.mp (hrun.symm.trans run)
      cases hr
      exact hhost'
  rintro before c input after rfl others hothers host htouches
  have hmem : ∀ run ∈ others, run ∈ before ++ (c, input) :: after := by
    intro run hrun
    obtain hrun | hrun := List.mem_append.mp (hothers.subset hrun)
    · exact List.mem_append_left _ hrun
    · exact List.mem_append_right _ (.tail _ hrun)
  obtain ⟨host', -, hrun⟩ := hkept host (htouched htouches hmem) (c, input) (by simp)
  rw [hrun, Option.map_map]
  exact Option.map_id'

theorem Command.stages_ne_nil (c : Command) : c.stages ≠ [] := by
  induction c with
  | pipe left right ihleft _ => simp [stages, ihleft]
  | _ => simp [stages]

/-- Where there are stages, there is a last one. -/
theorem exists_last_of_compose {run : Command → Bytes → Option StageResult} {input : Bytes} {cs : List Command}
    {all : List StageResult} (h : compose run input cs = some all) (hcs : cs ≠ []) :
    ∃ results last, all = results ++ [last] := by
  cases cs with
  | nil => exact absurd rfl hcs
  | cons c cs =>
    obtain ⟨r, -, hrest⟩ := Option.bind_eq_some_iff.mp h
    obtain ⟨rest, -, rfl⟩ := Option.map_eq_some_iff.mp hrest
    exact ⟨_, _, (List.dropLast_concat_getLast (List.cons_ne_nil r rest)).symm⟩

theorem Verdict.joined_results (results : List StageResult) (last : StageResult) :
    Verdict.joined ("", 0) ((results ++ [last]).map (·.verdict)) =
      (String.join ((results ++ [last]).map (·.stderr)), last.status) := by
  rw [List.map_append, List.map_singleton, Verdict.joined_concat]
  simp [StageResult.verdict, Function.comp_def]

/-- Stages that are run in turn, behind those that `done` tells, give what their functions give. -/
theorem Engine.runStages_compose {e : Engine} {again : Again} {m : Machine} {cs : List Command}
    (before : StageResult) {done : List (Command × Bytes)} {host : Host} (hhost : e.Touched again m done host)
    (hapart : e.Apart again m (done.reverse ++ stageRuns (e.stageAlone again m) before.stdout cs)) :
    (∀ results, compose (e.stageAlone again m) before.stdout cs = some results →
      ∃ host', e.runStages again m.state.child before host cs =
        some (⟨(results.map (·.stdout)).getLastD before.stdout,
          (before.verdict.joined (results.map (·.verdict))).1,
          (before.verdict.joined (results.map (·.verdict))).2⟩, host')) ∧
    (compose (e.stageAlone again m) before.stdout cs = none →
      e.runStages again m.state.child before host cs = none) := by
  induction cs generalizing before done host with
  | nil =>
    refine ⟨?_, fun h => by cases h⟩
    rintro _ ⟨⟩
    exact ⟨host, rfl⟩
  | cons c cs ih =>
    have hdone (after : List (Command × Bytes)) : done.Subperm (done.reverse ++ after) :=
      (List.reverse_perm done).symm.subperm.trans (List.sublist_append_left _ _).subperm
    have halone := hapart done.reverse c before.stdout _ rfl done (hdone _) host hhost
    cases hrun : e.runStage again c before.stdout ⟨m.state.child, host⟩ with
    | none =>
      rw [hrun, Option.map_none] at halone
      simp [compose, ← halone, Engine.runStages, hrun]
    | some ran =>
      obtain ⟨r, host'⟩ := ran
      rw [hrun, Option.map_some] at halone
      have hruns : done.reverse ++ stageRuns (e.stageAlone again m) before.stdout (c :: cs) =
          ((c, before.stdout) :: done).reverse ++ stageRuns (e.stageAlone again m) r.stdout cs := by
        simp [stageRuns, ← halone]
      rw [hruns] at hapart
      simp only [compose, ← halone, Engine.runStages, hrun, Option.bind_some]
      obtain ⟨hsome, hnone⟩ := ih ⟨r.stdout, before.stderr ++ r.stderr, r.status⟩ (hhost.ran hrun) hapart
      refine ⟨fun results h => ?_, fun h => hnone (Option.map_eq_none_iff.mp h)⟩
      obtain ⟨results, hrest, rfl⟩ := Option.map_eq_some_iff.mp h
      obtain ⟨host'', hdone⟩ := hsome results hrest
      refine ⟨host'', hdone.trans ?_⟩
      simp only [List.map_cons, List.getLastD_cons, Verdict.joined, List.foldl_cons, StageResult.verdict]

/-! ## Stages at the same time -/

/-- The request for a program. -/
def Machine.request (m : Machine) (program : String) (args : List String) (stdin : Bytes) : ProgramRequest :=
  ⟨program, args.map dequote, m.state.cwd, m.state.env.visible, stdin⟩

/-- A stage that was just started. -/
def Live.stage (live : Live σ) (again : Again) (m : Machine) (c : Command) : Stage σ :=
  match stageProgram? m.child c with
  | some (program, args) =>
    .program program (live.start (m.child.request program args []) m.host.interrupted m.host.files)
  | none => .reading (fun input => (again (.command c) (Text.ofBytes input) m.child).map (·.1.stageResult.stage)) []

/-- The pipe from a stage to the later ones. The output of the last stage is caught. -/
def Engine.pipeTo (e : Engine) (later : List Command) : Pipe :=
  if later = [] then .capture else .between e.limits.pipeBuffer

/-- Stages that were just started, with the pipes behind them. -/
def Live.links (live : Live σ) (e : Engine) (again : Again) (m : Machine) : List Command → List (Stage σ × Pipe)
  | [] => []
  | c :: cs => (live.stage again m c, e.pipeTo cs) :: live.links e again m cs

/-- A pipeline whose stages were just started. -/
def Live.network (live : Live σ) (e : Engine) (again : Again) (m : Machine) (stdin : String) (stages : List Command) :
    Network σ :=
  ⟨.holding (Text.toBytes stdin), live.links e again m stages⟩

/-- If the stage is a program, then on any input it does step by step what the runner says it does as a whole. -/
def Live.Serves (live : Live σ) (e : Engine) (m : Machine) (c : Command) : Prop :=
  ∀ program args, stageProgram? m.child c = some (program, args) → ∀ stdin,
    live.Yields (e.runner (m.child.request program args stdin) m.host.interrupted m.host.files).stderr
      (e.runner (m.child.request program args stdin) m.host.interrupted m.host.files).ending
      (live.start (m.child.request program args []) m.host.interrupted m.host.files) stdin
      (e.runner (m.child.request program args stdin) m.host.interrupted m.host.files).stdout

section

variable {live : Live σ} {e : Engine} {m : Machine} (again : Again)

theorem Live.stage_isEnded (live : Live σ) (m : Machine) (c : Command) : (live.stage again m c).isEnded = false := by
  unfold Live.stage
  split <;> rfl

/-- A pipe that nothing was done to: it is empty and has both its ends. -/
theorem Engine.pipeTo_fresh (e : Engine) (later : List Command) :
    (e.pipeTo later).content = [] ∧ (e.pipeTo later).closed = false ∧
      (e.pipeTo later).abandoned = false := by
  unfold Engine.pipeTo
  split <;> exact ⟨rfl, rfl, rfl⟩

/-- A stage owes what its function gives. -/
theorem Live.Serves.owed {c : Command} (h : live.Serves e m c) (input : Bytes) :
    Duty.Owed live ⟨live.stage again m c, input, ((e.stageAlone again m c input).map (·.stdout)).getD [],
      (e.stageAlone again m c input).map (·.verdict)⟩ := by
  unfold Live.stage Engine.stageAlone Engine.runStage
  cases hprogram : stageProgram? m.child c with
  | none =>
    simp only [Duty.Owed, List.nil_append, Option.map_map]
    exact ⟨rfl, rfl⟩
  | some found =>
    obtain ⟨program, args⟩ := found
    exact ⟨_, _, h program args hprogram input, rfl⟩

/-- The duties at the start are those that the functions of the stages give, one after the other. -/
theorem Live.links_keep {cs : List Command} (hserves : ∀ c ∈ cs, live.Serves e m c) {p : Pipe} {more input : Bytes}
    (hfits : p.Fits more) (hinput : p.content ++ more = input) (hlast : cs = [] → p.capacity = none) :
    ∃ out duties, live.Keeps out more ⟨p, live.links e again m cs⟩ duties ∧
      (∀ results, compose (e.stageAlone again m) input cs = some results →
        duties.map (·.verdict) = (results.map (·.verdict)).map some ∧
          out = (results.map (·.stdout)).getLastD input) ∧
      (compose (e.stageAlone again m) input cs = none → none ∈ duties.map (·.verdict)) := by
  induction cs generalizing p more input with
  | nil =>
    refine ⟨input, [], .last hfits (hlast rfl) hinput, ?_, fun h => by cases h⟩
    rintro _ ⟨⟩
    exact ⟨rfl, rfl⟩
  | cons c cs ih =>
    subst hinput
    obtain ⟨hcontent, hclosed, habandoned⟩ := e.pipeTo_fresh cs
    have howed := (hserves c (.head _)).owed again (p.content ++ more)
    obtain ⟨out, duties, hkeeps, hsome, hnone⟩ := ih (fun c hc => hserves c (.tail _ hc))
      (p := e.pipeTo cs) ⟨by simp [hclosed], by simp [habandoned]⟩ (by rw [hcontent, List.nil_append])
      (by rintro rfl; rfl)
    refine ⟨out, _ :: duties, .link hfits (hclosed.trans (live.stage_isEnded again m c).symm) howed hkeeps, ?_⟩
    cases halone : e.stageAlone again m c (p.content ++ more) with
    | none => simp [compose, halone]
    | some r =>
      rw [halone] at hsome hnone
      simp only [compose, halone, Option.bind_some]
      refine ⟨fun results h => ?_, fun h => .tail _ (hnone (Option.map_eq_none_iff.mp h))⟩
      obtain ⟨results, hrest, rfl⟩ := Option.map_eq_some_iff.mp h
      obtain ⟨hverdicts, hout⟩ := hsome results hrest
      refine ⟨?_, ?_⟩
      · simp only [List.map_cons, hverdicts, Option.map_some]
      · rw [List.map_cons, List.getLastD_cons]
        exact hout

end

/-- What it may do: before a read (`none`), and with what was read. -/
inductive Live.Copies : Option Bytes → Action (Option Bytes) → Prop
  | read {size : Nat} (asked : size ≠ 0) : Copies none (.read size some)
  | write {bytes : Bytes} (nonempty : bytes ≠ []) : Copies (some bytes) (.write bytes fun _ => none)
  | exit : Copies (some []) (.exit [] (.exited 0))

def Live.copying : Live (Option Bytes) := ⟨fun _ _ _ => none, Live.Copies⟩

def Engine.copying : Engine :=
  ⟨.standard, fun request _ files => ⟨request.stdin, [], .exited 0, false, files⟩, .never⟩

theorem Live.copying_yields (input : Bytes) : Live.copying.Yields [] (.exited 0) none input input := by
  induction hlength : input.length using Nat.strongRecOn generalizing input with
  | ind length ih =>
    have hread (bytes later : Bytes) (hinput : input = bytes ++ later) (hend : bytes = [] → later = []) :
        Live.copying.Yields [] (.exited 0) (some bytes) later input := by
      by_cases hbytes : bytes = []
      · subst hbytes
        obtain rfl := hend rfl
        subst hinput
        refine .intro ⟨_, .exit⟩ ?_ ?_ ?_ ?_
        · rintro _ _ ⟨⟩
        · rintro _ _ (_ | hnonempty)
          exact absurd rfl hnonempty
        · rintro _ _ (_ | hnonempty)
          exact absurd rfl hnonempty
        · rintro _ _ ⟨⟩
          exact ⟨rfl, rfl, rfl, rfl⟩
      · have hshorter : later.length < length := by
          have := List.length_pos_iff.mpr hbytes
          rw [hinput, List.length_append] at hlength
          omega
        refine .intro ⟨_, .write hbytes⟩ ?_ ?_ ?_ ?_
        · rintro _ _ ⟨⟩
        · rintro _ _ ⟨⟩
          exact ⟨later, hinput.symm⟩
        · rintro _ _ ⟨⟩
          rw [hinput, List.drop_left]
          exact ih later.length hshorter later rfl
        · rintro _ _ ⟨⟩
          exact absurd rfl hbytes
    refine .intro ⟨.read 1 some, .read Nat.one_ne_zero⟩ ?_ ?_ ?_ ?_
    · rintro size _ (asked | _) bytes later hinput - hend
      exact hread bytes later hinput fun h => (hend h).resolve_left asked
    · rintro _ _ ⟨⟩
    · rintro _ _ ⟨⟩
    · rintro _ _ ⟨⟩

/-- Of the world, only the files decide which program a stage is. -/
theorem stageProgram?_congr {host host' : Host} (h : host.files = host'.files) (s : State) (c : Command) :
    stageProgram? ⟨s, host⟩ c = stageProgram? ⟨s, host'⟩ c := by
  unfold stageProgram?
  simp only [h]

/-- A command that is a name alone. -/
def Command.bare (name : String) : Command := .simple ⟨name, [], "", []⟩

/-- There is one file, an executable `tool`, and no break was requested. -/
def Host.HasTool (host : Host) : Prop := host.files = (Machine.withTool "tool").host.files ∧ host.interrupted = false

section

variable {host : Host} (h : host.HasTool)
include h

theorem Host.HasTool.runStage_tool (again : Again) (input : Bytes) :
    ∃ host', host'.HasTool ∧
      Engine.copying.runStage again (.bare "tool") input ⟨State.initial .empty "/", host⟩ =
        some (⟨input, "", 0⟩, host') := by
  obtain ⟨hfiles, hbreak⟩ := h
  have htool : stageProgram? (.withTool "tool") (.bare "tool") = some ("/tool", []) := by decide +kernel
  have hprogram := (stageProgram?_congr hfiles (State.initial .empty "/") _).trans htool
  have hempty : Text.ofBytes [] = "" := by decide
  have hrun := Engine.copying.runStage_program again hprogram input
  simp only [Engine.copying, Engine.streamProgram, ProgramEnd.verdict, hempty] at hrun
  refine ⟨_, ⟨?_, ?_⟩, hrun⟩
  · exact hfiles
  · exact (Bool.or_false _).trans hbreak

theorem Host.HasTool.runStage_echo (input : Bytes) :
    ∃ host', host'.HasTool ∧
      Engine.copying.runStage (Engine.copying.perform 1) (.bare "echo.hi") input ⟨State.initial .empty "/", host⟩ =
        some (⟨Text.toBytes "hi\n", "", 0⟩, host') := by
  obtain ⟨hfiles, hbreak⟩ := h
  have hecho : stageProgram? (.withTool "tool") (.bare "echo.hi") = none := by decide +kernel
  have hprogram := (stageProgram?_congr hfiles (State.initial .empty "/") _).trans hecho
  have hbudget : (State.initial .empty "/").commandCount < Engine.copying.limits.commands := by decide
  have hcommand := Engine.copying.runCommand_echo (Engine.copying.perform 0) (m := ⟨State.initial .empty "/", host⟩)
    (c := ⟨"echo.hi", [], "", []⟩) rfl (Builtin.echoText?_echo "hi") hbreak hbudget (Text.ofBytes input)
  have hrun : Engine.copying.perform 1 (.command (.bare "echo.hi")) (Text.ofBytes input)
      ⟨State.initial .empty "/", host⟩ = _ := hcommand
  refine ⟨{ host with started := host.started + 1 }, ⟨hfiles, hbreak⟩, ?_⟩
  rw [Engine.runStage, hprogram]
  dsimp only
  rw [hrun]
  rfl

end

end BatchShell
