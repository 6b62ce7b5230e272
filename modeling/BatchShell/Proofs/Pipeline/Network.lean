import BatchShell.Proofs.Pipeline.Channel
import Mathlib.Logic.Relation

/-!
# Stages that run at the same time

In a network, stages run at the same time over the pipes between them, and any stage that can take a step may be the
next to take one (`Live.Step`). The pieces that are written, the sizes that are asked for and the room in the pipes
decide which runs there are. None of it decides what comes out (`Live.Keeps.completes`).

`Live.Keeps` gives each stage of a network a duty: the rest of its input is what is in the pipe before it and what the
stage before it will still write. A step of the network is a step of one duty (`Live.Step.keeps`), so what the stages
will end with never changes, and since no duty takes for ever, no network does (`Live.Keeps.acc`). Stages do not block
each other either: one that waits to read finds its pipe empty, and then the one before it has room to write
(`Live.Keeps.progress`).
-/
namespace BatchShell

variable {σ : Type}

/-! ## One of many -/

/-- One member of a list takes a step. -/
inductive OneOf {α : Type} (r : α → α → Prop) : List α → List α → Prop
  | head {a b : α} {l : List α} (step : r a b) : OneOf r (a :: l) (b :: l)
  | tail {a : α} {l l' : List α} (steps : OneOf r l l') : OneOf r (a :: l) (a :: l')

namespace OneOf

variable {α : Type} {r : α → α → Prop}

theorem acc_cons {a : α} {l : List α} (ha : Acc (fun b a => r a b) a) (hl : Acc (fun l' l => OneOf r l l') l) :
    Acc (fun l' l => OneOf r l l') (a :: l) := by
  induction ha generalizing l with
  | intro a _ iha =>
    induction hl with
    | intro l hl ihl =>
      refine ⟨_, fun next h => ?_⟩
      cases h with
      | head step => exact iha _ step ⟨l, hl⟩
      | tail steps => exact ihl _ steps

/-- When no member takes steps for ever, the members together do not either. -/
theorem acc {l : List α} (h : ∀ a ∈ l, Acc (fun b a => r a b) a) : Acc (fun l' l => OneOf r l l') l := by
  induction l with
  | nil => exact ⟨_, fun _ h => nomatch h⟩
  | cons a l ih => exact acc_cons (h a (.head _)) (ih fun b hb => h b (.tail _ hb))

theorem map_eq {β : Type} {f : α → β} (hf : ∀ a b, r a b → f b = f a) {l l' : List α} (h : OneOf r l l') :
    l'.map f = l.map f := by
  induction h with
  | head step => simp [hf _ _ step]
  | tail _ ih => simp [ih]

end OneOf

/-! ## Networks -/

/-- Stages that are running, each with the pipe behind it, and the pipe in front of the first. -/
structure Network (σ : Type) where
  input : Pipe
  links : List (Stage σ × Pipe)

/-- Some stage takes a step. -/
inductive Live.Step (live : Live σ) : Network σ → Network σ → Prop
  | here {p p' q q' : Pipe} {stage stage' : Stage σ} {links : List (Stage σ × Pipe)}
    (acts : live.Acts (p, stage, q) (p', stage', q')) :
    live.Step ⟨p, (stage, q) :: links⟩ ⟨p', (stage', q') :: links⟩
  | there {p q q' : Pipe} {stage : Stage σ} {links links' : List (Stage σ × Pipe)}
    (step : live.Step ⟨q, links⟩ ⟨q', links'⟩) :
    live.Step ⟨p, (stage, q) :: links⟩ ⟨p, (stage, q') :: links'⟩

namespace Network

/-- Put together what the stages leave, when they have all ended. -/
def gather (before : StageResult) : List (Stage σ × Pipe) → Option StageResult
  | [] => some before
  | (.ended verdict, q) :: links => gather ⟨q.content, before.stderr ++ verdict.1, verdict.2⟩ links
  | _ :: _ => none

/-- The result of the whole: what the last pipe holds, the errors of all stages in order, the last status. -/
def result? (n : Network σ) : Option StageResult := gather ⟨n.input.content, "", 0⟩ n.links

theorem gather_isSome (before : StageResult) (links : List (Stage σ × Pipe)) :
    (gather before links).isSome = true ↔ ∀ link ∈ links, link.1.isEnded = true := by
  fun_induction gather before links with
  | case1 => simp
  | case2 before verdict q links ih => simp [ih, Stage.isEnded]
  | case3 before link links hlink =>
    obtain ⟨stage, q⟩ := link
    cases stage with
    | ended verdict => exact absurd rfl (hlink verdict q)
    | _ => simp [Stage.isEnded]

end Network

/-- However the steps fall, the stages come to an end after finitely many of them, with this result. Until then one of
them can always go on. -/
structure Live.Completes (live : Live σ) (n : Network σ) (r : StageResult) : Prop where
  finite : Acc (fun n' n => live.Step n n') n
  result : ∀ n', Relation.ReflTransGen live.Step n n' →
    n'.result? = some r ∨ n'.result? = none ∧ ∃ n'', live.Step n' n''

/-- Verdicts one after the other: all errors, and the last status. -/
def Verdict.joined (before : Verdict) (verdicts : List Verdict) : Verdict :=
  verdicts.foldl (fun before verdict => (before.1 ++ verdict.1, verdict.2)) before

theorem Verdict.joined_fst (before : Verdict) (verdicts : List Verdict) :
    (before.joined verdicts).1 = before.1 ++ String.join (verdicts.map (·.1)) := by
  induction verdicts generalizing before with
  | nil => simp [joined]
  | cons verdict verdicts ih =>
    rw [joined, List.foldl_cons, ← joined, ih]
    simp [String.append_assoc]

theorem Verdict.joined_concat (before : Verdict) (verdicts : List Verdict) (last : Verdict) :
    before.joined (verdicts ++ [last]) = (before.1 ++ String.join ((verdicts ++ [last]).map (·.1)), last.2) :=
  Prod.ext (joined_fst before _) (by simp [joined])

/-! ## The duties of a network -/

/-- The duties of the stages of a network whose last pipe will have caught `out`; `more` is still to be written to the
first pipe. -/
inductive Live.Keeps (live : Live σ) (out : Bytes) : Bytes → Network σ → List (Duty σ) → Prop
  | last {p : Pipe} {more : Bytes} (fits : p.Fits more) (capacity : p.capacity = none)
    (caught : p.content ++ more = out) : live.Keeps out more ⟨p, []⟩ []
  | link {p q : Pipe} {more togo : Bytes} {stage : Stage σ} {verdict : Option Verdict}
    {links : List (Stage σ × Pipe)} {duties : List (Duty σ)} (fits : p.Fits more) (closed : q.closed = stage.isEnded)
    (owed : Duty.Owed live ⟨stage, p.content ++ more, togo, verdict⟩) (rest : live.Keeps out togo ⟨q, links⟩ duties) :
    live.Keeps out more ⟨p, (stage, q) :: links⟩ (⟨stage, p.content ++ more, togo, verdict⟩ :: duties)

section

variable {live : Live σ} {out more : Bytes} {n n' : Network σ} {duties : List (Duty σ)}

namespace Live.Keeps

theorem input_fits (h : live.Keeps out more n duties) : n.input.Fits more := by
  cases h <;> assumption

theorem owed_of_mem (h : live.Keeps out more n duties) {d : Duty σ} (hd : d ∈ duties) : d.Owed live := by
  induction h with
  | last => cases hd
  | link _ _ owed _ ih =>
    cases hd with
    | head => exact owed
    | tail _ hd => exact ih hd

/-- The stages do not see how much of their input is in the pipe and how much is still to come. -/
theorem feed {p p' : Pipe} {more' : Bytes} {links : List (Stage σ × Pipe)}
    (h : live.Keeps out more ⟨p, links⟩ duties) (hfits : p'.Fits more')
    (hcontent : p'.content ++ more' = p.content ++ more) (hcapacity : p'.capacity = p.capacity) :
    live.Keeps out more' ⟨p', links⟩ duties := by
  cases h with
  | last _ capacity caught => exact .last hfits (hcapacity.trans capacity) (hcontent.trans caught)
  | link _ closed owed rest =>
    rw [← hcontent] at owed ⊢
    exact .link hfits closed owed rest

end Live.Keeps

/-- A step of a network is a step of one duty. -/
theorem Live.Step.keeps (h : live.Step n n') (hkeeps : live.Keeps out more n duties) :
    n'.input.closed = n.input.closed ∧
      ∃ duties', live.Keeps out more n' duties' ∧ OneOf live.Does duties duties' := by
  induction h generalizing more duties with
  | here acts =>
    cases hkeeps with
    | link fits closed owed rest =>
      obtain ⟨togo', hdoes, hfits, hsame, hfits', hcontent, hcapacity, hclosed⟩ :=
        acts.does fits rest.input_fits owed closed
      exact ⟨hsame, _, .link hfits hclosed (hdoes.owed owed) (rest.feed hfits' hcontent hcapacity), .head hdoes⟩
  | there step ih =>
    cases hkeeps with
    | link fits closed owed rest =>
      obtain ⟨hclosed, duties', hrest, hsteps⟩ := ih rest
      exact ⟨rfl, _, .link fits (hclosed.trans closed) owed hrest, .tail hsteps⟩

/-- What the stages will end with stays the same all along. -/
theorem Live.Keeps.run (h : live.Keeps out more n duties) (hrun : Relation.ReflTransGen live.Step n n') :
    n'.input.closed = n.input.closed ∧
      ∃ duties', live.Keeps out more n' duties' ∧ duties'.map (·.verdict) = duties.map (·.verdict) := by
  induction hrun with
  | refl => exact ⟨rfl, duties, h, rfl⟩
  | tail _ step ih =>
    obtain ⟨hclosed, duties', hkeeps, hverdicts⟩ := ih
    obtain ⟨hclosed', duties'', hkeeps', hone⟩ := step.keeps hkeeps
    exact ⟨hclosed'.trans hclosed, duties'', hkeeps', (hone.map_eq fun _ _ h => h.verdict_eq).trans hverdicts⟩

namespace Live.Keeps

/-- No schedule goes on for ever. -/
theorem acc (h : live.Keeps out more n duties) : Acc (fun n' n => live.Step n n') n := by
  have hduties : Acc (fun l' l => OneOf live.Does l l') duties := OneOf.acc fun d hd => (h.owed_of_mem hd).acc
  induction hduties generalizing n with
  | intro duties _ ih =>
    refine ⟨_, fun n' step => ?_⟩
    obtain ⟨-, duties', hkeeps, hone⟩ := step.keeps h
    exact ih duties' hone hkeeps

/-- Where the stages behind it have ended or wait for input, a stage has room to write. -/
theorem room {p : Pipe} {links : List (Stage σ × Pipe)} (h : live.Keeps out more ⟨p, links⟩ duties)
    (hidle : (∀ link ∈ links, link.1.isEnded = true) ∨ p.content = [] ∧ p.closed = false) :
    p.content = [] ∨ p.capacity = none := by
  rcases hidle with hended | ⟨hempty, -⟩
  · cases h with
    | last _ capacity _ => exact .inr capacity
    | @link _ _ _ _ stage _ _ _ _ _ owed _ =>
      have hstage := hended _ (.head _)
      cases stage with
      | ended verdict =>
        have hnothing := owed.1
        exact .inl (List.append_eq_nil_iff.mp hnothing).1
      | _ => cases hstage
  · exact .inl hempty

/-- Unless all stages have ended, one can go on, or the first waits for input. -/
theorem progress (h : live.Keeps out more n duties) (hends : ∀ d ∈ duties, d.verdict.isSome = true) :
    (∃ n', live.Step n n') ∨ (∀ link ∈ n.links, link.1.isEnded = true) ∨
      n.input.content = [] ∧ n.input.closed = false := by
  induction h with
  | last => exact .inr (.inl (by simp))
  | @link p q more togo stage verdict links duties fits closed owed rest ih =>
    rcases ih fun d hd => hends d (.tail _ hd) with ⟨⟨q', links'⟩, step⟩ | hidle
    · exact .inl ⟨_, .there step⟩
    · obtain ⟨verdict, rfl⟩ := Option.isSome_iff_exists.mp (hends _ (.head _))
      rcases owed.acts fits (rest.room hidle) with hended | ⟨⟨p', stage', q'⟩, acts⟩ | hwaits
      · -- the pipe of a stage that has ended is closed, so nobody waits there
        rcases hidle with hidle | ⟨-, hopen⟩
        · refine .inr (.inl fun link hlink => ?_)
          cases hlink with
          | head => exact hended
          | tail _ hlink => exact hidle link hlink
        · cases (closed.trans hended).symm.trans hopen
      · exact .inl ⟨_, .here acts⟩
      · exact .inr (.inr hwaits)

/-- A stage that has ended was to end so. -/
theorem verdict_isSome (h : live.Keeps out more n duties) (hended : ∀ link ∈ n.links, link.1.isEnded = true)
    {d : Duty σ} (hd : d ∈ duties) : d.verdict.isSome = true := by
  induction h with
  | last => cases hd
  | @link _ _ _ _ stage _ _ _ _ _ owed _ ih =>
    cases hd with
    | head =>
      have hstage := hended _ (.head _)
      cases stage with
      | ended verdict => exact Option.isSome_iff_exists.mpr ⟨verdict, owed.2.2⟩
      | _ => cases hstage
    | tail _ hd => exact ih (fun link hlink => hended link (.tail _ hlink)) hd

/-- The result of stages that have ended is what they were to end with. -/
theorem gather (h : live.Keeps out more n duties) (hended : ∀ link ∈ n.links, link.1.isEnded = true)
    {verdicts : List Verdict} (hverdicts : duties.map (·.verdict) = verdicts.map some) {before : StageResult}
    (hbefore : before.stdout = n.input.content ++ more) :
    Network.gather before n.links =
      some ⟨out, (before.verdict.joined verdicts).1, (before.verdict.joined verdicts).2⟩ := by
  induction h generalizing before verdicts with
  | last _ _ caught =>
    obtain rfl : verdicts = [] := by simpa using hverdicts.symm
    obtain ⟨stdout, stderr, status⟩ := before
    obtain rfl : stdout = out := hbefore.trans caught
    rfl
  | @link p q more togo stage verdict links duties _ _ owed rest ih =>
    have hstage := hended _ (.head _)
    cases stage with
    | ended verdict' =>
      obtain ⟨-, htogo, hverdict⟩ := owed
      dsimp only at htogo hverdict
      subst htogo hverdict
      obtain ⟨verdicts, rfl, htail⟩ : ∃ tail, verdicts = verdict' :: tail ∧ duties.map (·.verdict) = tail.map some := by
        cases verdicts with
        | nil => cases hverdicts
        | cons first tail =>
          simp only [List.map_cons, List.cons.injEq, Option.some.injEq] at hverdicts
          exact ⟨tail, by rw [hverdicts.1], hverdicts.2⟩
      exact ih (fun link hlink => hended link (.tail _ hlink)) htail (List.append_nil _).symm
    | _ => cases hstage

/-- **A network whose stages all come to an end does so on every schedule, with one result.** -/
theorem completes (h : live.Keeps out [] n duties) (hclosed : n.input.closed = true) {verdicts : List Verdict}
    (hverdicts : duties.map (·.verdict) = verdicts.map some) :
    live.Completes n ⟨out, (Verdict.joined ("", 0) verdicts).1, (Verdict.joined ("", 0) verdicts).2⟩ := by
  refine ⟨h.acc, fun n' hrun => ?_⟩
  obtain ⟨hclosed', duties', hkeeps, hsame⟩ := h.run hrun
  by_cases hended : ∀ link ∈ n'.links, link.1.isEnded = true
  · exact .inl (hkeeps.gather hended (hsame.trans hverdicts) (List.append_nil _).symm)
  · have hends : ∀ d ∈ duties', d.verdict.isSome = true := by
      intro d hd
      have hmem : d.verdict ∈ verdicts.map some := (hsame.trans hverdicts) ▸ List.mem_map_of_mem hd
      obtain ⟨verdict, -, hverdict⟩ := List.mem_map.mp hmem
      exact Option.isSome_iff_exists.mpr ⟨verdict, hverdict.symm⟩
    have hnone : n'.result? = none := by
      rw [← Option.not_isSome_iff_eq_none, Network.result?, Network.gather_isSome]
      exact hended
    rcases hkeeps.progress hends with hstep | hall | ⟨-, hopen⟩
    · exact .inr ⟨hnone, hstep⟩
    · exact absurd hall hended
    · rw [hclosed', hclosed] at hopen
      cases hopen

/-- When a stage does not come to an end, there never is a result. -/
theorem no_result (h : live.Keeps out more n duties) (hnone : none ∈ duties.map (·.verdict))
    (hrun : Relation.ReflTransGen live.Step n n') : n'.result? = none := by
  obtain ⟨-, duties', hkeeps, hsame⟩ := h.run hrun
  rw [← hsame] at hnone
  obtain ⟨d, hd, hverdict⟩ := List.mem_map.mp hnone
  rw [← Option.not_isSome_iff_eq_none, Network.result?, Network.gather_isSome]
  intro hended
  have hsome := hkeeps.verdict_isSome hended hd
  rw [hverdict] at hsome
  cases hsome

end Live.Keeps

end

end BatchShell
