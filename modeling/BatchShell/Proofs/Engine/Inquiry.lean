import BatchShell.Proofs.Engine.Ends

/-!
# What a level of the engine asks for

The parts of the engine are functions of `again`, which runs the tasks that come up on the way. Such a function
is an inquiry: it asks for one job, goes on with the answer, asks for the next one, and gives a result in the
end. `Inquiry sound allowed post f` says so of `f`, as long as the answers are `sound`: every job that is asked
for is `allowed`, and the result satisfies `post`.

* `Inquiry.holds`, `Inquiry.grows`: with sound answers the result satisfies `post`, and more answers do not
  change it.
* `ComesTo` says which jobs an inquiry asks for if the answers are given. All of them are allowed
  (`Inquiry.allowed_of_stuck`), and if each has an answer there is a result (`Inquiry.finishes`).
* One rule for each construct that only passes results on says what has to be shown of its parts.
-/
namespace BatchShell

/-- A task with its input and the machine it runs on. -/
structure Job where
  task : Task
  stdin : String
  machine : Machine

/-- Run a job. -/
def Again.run (again : Again) (j : Job) : Run := again j.task j.stdin j.machine

/-- Every answer is sound. -/
def Again.Obeys (again : Again) (sound : Job → Outcome × Machine → Prop) : Prop :=
  ∀ j r, again.run j = some r → sound j r

/-- What has an answer keeps it. -/
def Again.Below (again more : Again) : Prop := ∀ j r, again.run j = some r → more.run j = some r

variable {α β : Type}

/-- `f` asks for `j` before anything else, and goes on with the answer as `k` does. -/
def AsksFirst (f : Again → Option α) (j : Job) (k : Outcome × Machine → Again → Option α) : Prop :=
  ∀ again, f again = (again.run j).bind fun r => k r again

/-- With sound answers, `f` asks only for allowed jobs, and its result satisfies `post`. -/
inductive Inquiry (sound : Job → Outcome × Machine → Prop) (allowed : Job → Prop) (post : α → Prop) :
    (Again → Option α) → Prop
  | result (a : α) (h : post a) : Inquiry sound allowed post fun _ => some a
  | ask {f : Again → Option α} {j : Job} {k : Outcome × Machine → Again → Option α} (hfirst : AsksFirst f j k)
    (hallowed : allowed j) (hnext : ∀ r, sound j r → Inquiry sound allowed post (k r)) :
    Inquiry sound allowed post f

/-- If jobs are answered as `answer` says, `f` comes to ask for a job. -/
inductive ComesTo (answer : Job → Outcome × Machine → Prop) : (Again → Option α) → Job → Prop
  | now {f : Again → Option α} {j : Job} {k : Outcome × Machine → Again → Option α} (hfirst : AsksFirst f j k) :
    ComesTo answer f j
  | later {f : Again → Option α} {i j : Job} {k : Outcome × Machine → Again → Option α} {r : Outcome × Machine}
    (hfirst : AsksFirst f i k) (hanswer : answer i r) (h : ComesTo answer (k r) j) : ComesTo answer f j

/-- What comes to ask for a job has no result as long as that one has no answer. -/
theorem ComesTo.stuck {answer : Job → Outcome × Machine → Prop} {f : Again → Option α} {i : Job}
    (h : ComesTo answer f i) {again : Again} (hanswer : ∀ j r, j ≠ i → answer j r → again.run j = some r)
    (hi : again.run i = none) : f again = none := by
  induction h with
  | now hfirst => rw [hfirst, hi, Option.bind_none]
  | @later f j i k r hfirst hr _ ih =>
    by_cases hj : j = i
    · rw [hfirst, hj, hi, Option.bind_none]
    · rw [hfirst, hanswer j r hj hr]
      exact ih hanswer hi

namespace Inquiry

variable {sound : Job → Outcome × Machine → Prop} {allowed : Job → Prop} {post : α → Prop}
  {f : Again → Option α}

/-- The result of an inquiry. -/
theorem holds (h : Inquiry sound allowed post f) {again : Again} (hsound : again.Obeys sound) {a : α}
    (ha : f again = some a) : post a := by
  induction h with
  | result a' h =>
    cases ha
    exact h
  | ask hfirst _ _ ih =>
    rw [hfirst again] at ha
    obtain ⟨r, hr, hk⟩ := Option.bind_eq_some_iff.mp ha
    exact ih r (hsound _ r hr) hk

/-- A result stays when more jobs are answered. -/
theorem grows (h : Inquiry sound allowed post f) {again more : Again} (hsound : again.Obeys sound)
    (hle : again.Below more) {a : α} (ha : f again = some a) : f more = some a := by
  induction h with
  | result a' _ => exact ha
  | ask hfirst _ _ ih =>
    rw [hfirst again] at ha
    obtain ⟨r, hr, hk⟩ := Option.bind_eq_some_iff.mp ha
    rw [hfirst more, hle _ r hr]
    exact ih r (hsound _ r hr) hk

/-- An inquiry gives a result, if what it comes to ask for is answered sooner or later. -/
theorem finishes (h : Inquiry sound allowed post f) {runs : Nat → Again}
    (hsound : ∀ n, (runs n).Obeys sound) (hle : ∀ {n n'}, n ≤ n' → (runs n).Below (runs n'))
    (hanswer : ∀ j, allowed j → ComesTo (fun j r => ∃ n, (runs n).run j = some r) f j →
      ∃ n r, (runs n).run j = some r) : ∃ n a, f (runs n) = some a := by
  induction h with
  | result a _ => exact ⟨0, a, rfl⟩
  | @ask f j k hfirst hallowed hnext ih =>
    obtain ⟨n, r, hr⟩ := hanswer j hallowed (.now hfirst)
    obtain ⟨n', a, ha⟩ := ih r (hsound n j r hr) fun i hi hcomes =>
      hanswer i hi (.later hfirst ⟨n, hr⟩ hcomes)
    -- the later of the two levels answers the job and all that follows it
    refine ⟨max n n', a, ?_⟩
    rw [hfirst, hle (Nat.le_max_left n n') j r hr]
    exact (hnext r (hsound n j r hr)).grows (hsound n') (hle (Nat.le_max_right n n')) ha

/-- An inquiry that gets every answer but one, and has no result, asked for that one. -/
theorem allowed_of_stuck (h : Inquiry sound allowed post f) {again : Again} (hsound : again.Obeys sound)
    {i : Job} (hothers : ∀ j, j ≠ i → ∃ r, again.run j = some r) (hstuck : f again = none) : allowed i := by
  induction h with
  | result a _ => cases hstuck
  | @ask f j k hfirst hallowed _ ih =>
    by_cases hj : j = i
    · exact hj ▸ hallowed
    · obtain ⟨r, hr⟩ := hothers j hj
      rw [hfirst, hr] at hstuck
      exact ih r (hsound j r hr) hstuck

/-! ## Rules -/

/-- Ask for a job, and give the answer as the result. -/
theorem single {post : Outcome × Machine → Prop} (j : Job) (hallowed : allowed j)
    (hpost : ∀ r, sound j r → post r) : Inquiry sound allowed post fun again => again.run j :=
  .ask (k := fun r _ => some r) (fun again => by simp) hallowed fun r hr => .result r (hpost r hr)

theorem mono (h : Inquiry sound allowed post f) {allowed' : Job → Prop} {post' : α → Prop}
    (hallowed : ∀ j, allowed j → allowed' j) (hpost : ∀ a, post a → post' a) :
    Inquiry sound allowed' post' f := by
  induction h with
  | result a h => exact .result a (hpost a h)
  | ask hfirst hj _ ih => exact .ask hfirst (hallowed _ hj) ih

/-- One inquiry after another. -/
theorem bind {post' : β → Prop} {g : α → Again → Option β} (h : Inquiry sound allowed post f)
    (hg : ∀ a, post a → Inquiry sound allowed post' (g a)) :
    Inquiry sound allowed post' fun again => (f again).bind fun a => g a again := by
  induction h with
  | result a h => exact hg a h
  | ask hfirst hj _ ih =>
    refine .ask (fun again => ?_) hj ih
    rw [hfirst again, Option.bind_assoc]

/-- Something that asks what `f` asks, has no result if `f` has none, and agrees with an inquiry for each result
that `f` can have. -/
theorem followed {post' : β → Prop} {g : Again → Option β} (h : Inquiry sound allowed post f)
    (hnone : ∀ again, f again = none → g again = none)
    (hnext : ∀ a, post a → ∃ k, Inquiry sound allowed post' k ∧ ∀ again, f again = some a → g again = k again) :
    Inquiry sound allowed post' g := by
  classical
  -- results that do not satisfy `post` do not come up, but `g` has to be put together for them too
  let next (a : α) : Again → Option β := if ha : post a then (hnext a ha).choose else g
  have hg : g = fun again => (f again).bind fun a => next a again := by
    funext again
    cases hf : f again with
    | none => exact hnone again hf
    | some a =>
      by_cases ha : post a
      · simpa [next, ha] using (hnext a ha).choose_spec.2 again hf
      · simp [next, ha]
  rw [hg]
  refine h.bind fun a ha => ?_
  simpa [next, ha] using (hnext a ha).choose_spec.1

theorem map {post' : β → Prop} {g : α → β} (h : Inquiry sound allowed post f)
    (hg : ∀ a, post a → post' (g a)) : Inquiry sound allowed post' fun again => (f again).map g := by
  induction h with
  | result a h => exact .result (g a) (hg a h)
  | ask hfirst hj _ ih =>
    refine .ask (fun again => ?_) hj ih
    rw [hfirst again, Option.map_bind]
    rfl

end Inquiry

end BatchShell
