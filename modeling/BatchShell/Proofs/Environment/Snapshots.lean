import Mathlib.Logic.Function.Basic
import BatchShell.Proofs.Environment.Lookup
import BatchShell.Proofs.Environment.Scopes

/-!
# Scopes as copies

The plain picture of local scopes: a scope is opened by copying all variables, and closed by throwing the
copy away. `Snapshots` is that picture, a stack of complete maps. An environment keeps only the changes of
each scope, with a mark for a deletion. It nevertheless gives the same answers:

* `Environment.snapshots` reads the stack of maps off the frames, and every change commutes with it
  (`snapshots_change`);
* so any series of changes gives the same answers on both sides and leaves the same picture (`run_snapshots`);
* what is done in a scope is undone when it is closed, to the last entry (`popScope?_run_pushScope`).
-/
namespace BatchShell

open Text

/-! ## The reference -/

/-- A variable for each upper-case name that has one. -/
abbrev Snapshot := String → Option Variable

/-- A stack of complete maps, innermost first; there is always one. -/
@[ext] structure Snapshots where
  maps : List Snapshot
  nonempty : maps ≠ []

namespace Snapshots

/-- No variable, one map. -/
def initial : Snapshots := ⟨[fun _ => none], List.cons_ne_nil _ _⟩

variable (s : Snapshots)

/-- The innermost map. -/
def top : Snapshot := s.maps.head s.nonempty

def get? (name : String) : Option String := (s.top (upper name)).map (·.value)

def contains (name : String) : Bool := (s.get? name).isSome

def depth : Nat := s.maps.length - 1

/-- Change the innermost map. -/
def modifyTop (change : Snapshot → Snapshot) : Snapshots :=
  ⟨s.maps.modifyHead change, by simpa using s.nonempty⟩

def set (name value : String) : Snapshots :=
  s.modifyTop fun map => Function.update map (upper name) (some ⟨name, value⟩)

def unset (name : String) : Snapshots := s.modifyTop fun map => Function.update map (upper name) none

/-- Copy the innermost map. -/
def push : Snapshots := ⟨s.top :: s.maps, List.cons_ne_nil _ _⟩

/-- Drop the innermost map, unless it is the last one. -/
def pop? : Option Snapshots := if h : s.maps.tail = [] then none else some ⟨s.maps.tail, h⟩

/-- Keep the `depth + 1` outermost maps. -/
def truncate (depth : Nat) : Snapshots :=
  ⟨s.maps.drop (s.maps.length - (depth + 1)), by
    have := List.length_pos_iff.mpr s.nonempty
    rw [← List.length_pos_iff, List.length_drop]
    omega⟩

def ofList (vars : List (String × String)) : Snapshots :=
  vars.foldl (fun s (name, value) => s.set name value) initial

end Snapshots

/-! ## Changes and answers -/

/-- What can be done to variables and scopes. -/
inductive Change where
  | set (name value : String)
  | unset (name : String)
  | push
  | pop
  | truncate (depth : Nat)
  deriving DecidableEq

/-- What is answered. -/
inductive Answer where
  | done
  /-- Was the deleted name visible? -/
  | existed (visible : Bool)
  /-- There is no scope to close. -/
  | underflow
  deriving DecidableEq

def Environment.change (env : Environment) : Change → Answer × Environment
  | .set name value => (.done, env.set name value)
  | .unset name => ((env.delete name).map .existed id)
  | .push => (.done, env.pushScope)
  | .pop => match env.popScope? with
    | some outer => (.done, outer)
    | none => (.underflow, env)
  | .truncate depth => (.done, env.truncateScopes depth)

def Snapshots.change (s : Snapshots) : Change → Answer × Snapshots
  | .set name value => (.done, s.set name value)
  | .unset name => (.existed (s.contains name), s.unset name)
  | .push => (.done, s.push)
  | .pop => match s.pop? with
    | some outer => (.done, outer)
    | none => (.underflow, s)
  | .truncate depth => (.done, s.truncate depth)

/-- One change after another: all answers, and what is left. -/
def Change.run {σ : Type} (step : σ → Change → Answer × σ) : σ → List Change → List Answer × σ
  | s, [] => ([], s)
  | s, c :: cs =>
    let (answer, s) := step s c
    let (answers, s) := run step s cs
    (answer :: answers, s)

/-! ## Reading the picture off the frames -/

/-- The complete maps that frames, innermost first, stand for. -/
def snapshotsOf : List Frame → List Snapshot
  | [] => []
  | f :: fs => Environment.resolve (f :: fs) :: snapshotsOf fs

@[simp] theorem length_snapshotsOf (fs : List Frame) : (snapshotsOf fs).length = fs.length := by
  induction fs with
  | nil => rfl
  | cons f fs ih => simp [snapshotsOf, ih]

theorem snapshotsOf_drop (n : Nat) (fs : List Frame) : snapshotsOf (fs.drop n) = (snapshotsOf fs).drop n := by
  induction fs generalizing n with
  | nil => simp [snapshotsOf]
  | cons f fs ih =>
    cases n with
    | zero => rfl
    | succ n => exact ih n

namespace Environment

variable (env : Environment)

@[simp] theorem length_frames : env.frames.length = env.depth + 1 := by simp [frames, depth]

theorem frames_injective {env env' : Environment} (h : env.frames = env'.frames) : env = env' := by
  obtain ⟨scopes, base⟩ := env
  obtain ⟨scopes', base'⟩ := env'
  obtain ⟨rfl, hbase⟩ := List.append_inj' h rfl
  cases hbase
  rfl

/-- The stack of maps that an environment stands for. -/
def snapshots : Snapshots :=
  ⟨snapshotsOf env.frames, by
    rw [← List.length_pos_iff, length_snapshotsOf, length_frames]
    omega⟩

theorem top_snapshots : env.snapshots.top = resolve env.frames := by
  obtain ⟨scopes, base⟩ := env
  cases scopes <;> rfl

theorem get?_snapshots (name : String) : env.snapshots.get? name = env.get? name := by
  rw [Snapshots.get?, top_snapshots, get?_eq_resolve]

theorem depth_snapshots : env.snapshots.depth = env.depth := by
  simp [Snapshots.depth, snapshots]

/-! ## Changes commute -/

theorem frames_modifyInner (change : Frame → Frame) :
    (env.modifyInner change).frames = env.frames.modifyHead change := by
  obtain ⟨scopes, base⟩ := env
  cases scopes <;> rfl

/-- A change of the innermost frame that the innermost map sees as `update`. -/
theorem snapshots_modifyInner {change : Frame → Frame} {update : Snapshot → Snapshot}
    (h : ∀ f fs, env.frames = f :: fs → resolve (change f :: fs) = update (resolve (f :: fs))) :
    (env.modifyInner change).snapshots = env.snapshots.modifyTop update := by
  refine Snapshots.ext ?_
  simp only [snapshots, Snapshots.modifyTop, frames_modifyInner]
  generalize hframes : env.frames = frames at h
  cases frames with
  | nil => rfl
  | cons f fs => simp [snapshotsOf, h f fs rfl]

theorem resolve_cons (name : String) (f : Frame) (fs : List Frame) :
    resolve (f :: fs) name = ((f.find? name).or (lookup name fs)).join := by
  rw [resolve, lookup_cons]

theorem resolve_insert (key : String) (entry : Option Variable) (f : Frame) (fs : List Frame) :
    resolve (f.insert key entry :: fs) = Function.update (resolve (f :: fs)) key entry := by
  funext name
  rw [Function.update_apply, resolve_cons, resolve_cons, Frame.find?_insert]
  by_cases hname : name = key <;> simp [hname]

/-- In the persistent frame a deletion needs no mark. -/
theorem resolve_erase (key : String) (base : Frame) :
    resolve [base.erase key] = Function.update (resolve [base]) key none := by
  funext name
  rw [Function.update_apply, resolve_cons, resolve_cons, Frame.find?_erase]
  by_cases hname : name = key <;> simp [hname, lookup]

theorem snapshots_set (name value : String) : (env.set name value).snapshots = env.snapshots.set name value :=
  env.snapshots_modifyInner fun f fs _ => resolve_insert _ _ f fs

theorem snapshots_unset (name : String) : (env.unset name).snapshots = env.snapshots.unset name := by
  unfold unset
  split
  · rename_i hscopes
    refine env.snapshots_modifyInner fun f fs hframes => ?_
    rw [frames, hscopes] at hframes
    cases hframes
    exact resolve_erase _ _
  · exact env.snapshots_modifyInner fun f fs _ => resolve_insert _ _ f fs

theorem snapshots_pushScope : env.pushScope.snapshots = env.snapshots.push := by
  have hempty : resolve ([] :: env.frames) = resolve env.frames := by
    funext name
    rw [resolve_cons]
    rfl
  refine Snapshots.ext ?_
  simp only [Snapshots.push, top_snapshots, ← hempty]
  rfl

theorem snapshots_popScope? : env.popScope?.map snapshots = env.snapshots.pop? := by
  obtain ⟨scopes, base⟩ := env
  cases scopes with
  | nil => rfl
  | cons f fs =>
    have htail : (snapshots ⟨f :: fs, base⟩).maps.tail ≠ [] := (snapshots ⟨fs, base⟩).nonempty
    simp only [popScope?, Option.map_some, Snapshots.pop?, htail, dif_neg, not_false_eq_true]
    rfl

theorem frames_truncateScopes (depth : Nat) :
    (env.truncateScopes depth).frames = env.frames.drop (env.frames.length - (depth + 1)) := by
  rw [length_frames, Nat.add_sub_add_right]
  exact (List.drop_append_of_le_length (Nat.sub_le _ _)).symm

theorem snapshots_truncateScopes (depth : Nat) :
    (env.truncateScopes depth).snapshots = env.snapshots.truncate depth := by
  refine Snapshots.ext ?_
  simp only [snapshots, Snapshots.truncate, frames_truncateScopes, snapshotsOf_drop, length_snapshotsOf]

/-- **Each change commutes with the picture**, and the answers are the same. -/
theorem snapshots_change (c : Change) :
    env.snapshots.change c = ((env.change c).1, (env.change c).2.snapshots) := by
  cases c with
  | set name value => rw [Snapshots.change, ← snapshots_set]; rfl
  | unset name =>
    have hcontains : env.snapshots.contains name = env.contains name := by
      rw [Snapshots.contains, get?_snapshots]; rfl
    rw [Snapshots.change, ← snapshots_unset, hcontains]
    rfl
  | push => rw [Snapshots.change, ← snapshots_pushScope]; rfl
  | pop =>
    rw [Snapshots.change, ← snapshots_popScope?, change]
    cases env.popScope? <;> rfl
  | truncate depth => rw [Snapshots.change, ← snapshots_truncateScopes]; rfl

theorem run_snapshots (changes : List Change) :
    Change.run Snapshots.change env.snapshots changes =
      ((Change.run change env changes).1, (Change.run change env changes).2.snapshots) := by
  induction changes generalizing env with
  | nil => rfl
  | cons c cs ih => simp only [Change.run, snapshots_change, ih]

theorem snapshots_ofList (vars : List (String × String)) : (ofList vars).snapshots = .ofList vars := by
  suffices h : ∀ env : Environment,
      (vars.foldl (fun env (name, value) => env.set name value) env).snapshots =
        vars.foldl (fun s (name, value) => s.set name value) env.snapshots from h empty
  induction vars with
  | nil => exact fun _ => rfl
  | cons var vars ih =>
    intro env
    obtain ⟨name, value⟩ := var
    rw [List.foldl_cons, List.foldl_cons, ih, snapshots_set]

/-! ## The frames stay in order -/

variable {env}

theorem keyed_modifyInner {change : Frame → Frame} (h : env.Keyed) (hchange : ∀ f, f.Keyed → (change f).Keyed) :
    (env.modifyInner change).Keyed := by
  unfold Environment.Keyed at *
  rw [frames_modifyInner]
  generalize env.frames = frames at h
  cases frames with
  | nil => exact h
  | cons f fs =>
    intro g hg
    rcases List.mem_cons.mp hg with rfl | hg
    · exact hchange f (h f List.mem_cons_self)
    · exact h g (List.mem_cons_of_mem _ hg)

theorem Keyed.set (h : env.Keyed) (name value : String) : (env.set name value).Keyed := by
  refine keyed_modifyInner h fun f hf => hf.insert fun v hv => ?_
  cases hv
  rfl

theorem Keyed.of_frames {env' : Environment} (h : env.Keyed) (hsub : ∀ f ∈ env'.frames, f ∈ env.frames) :
    env'.Keyed := fun f hf => h f (hsub f hf)

theorem Keyed.change (h : env.Keyed) (c : Change) : (env.change c).2.Keyed := by
  cases c with
  | set name value => exact h.set name value
  | unset name =>
    simp only [Environment.change, delete, Prod.map_apply, id_eq]
    unfold unset
    split
    · exact keyed_modifyInner h fun f hf => hf.erase _
    · exact keyed_modifyInner h fun f hf => hf.insert fun v hv => nomatch hv
  | push =>
    intro f hf
    rcases List.mem_cons.mp hf with rfl | hf
    · exact .nil
    · exact h f hf
  | pop =>
    obtain ⟨scopes, base⟩ := env
    cases scopes with
    | nil => exact h
    | cons f fs => exact h.of_frames fun g hg => List.mem_cons_of_mem _ hg
  | truncate depth =>
    refine h.of_frames fun f hf => ?_
    rw [Environment.change, frames_truncateScopes] at hf
    exact List.mem_of_mem_drop hf

theorem keyed_run (h : env.Keyed) (changes : List Change) : (Change.run change env changes).2.Keyed := by
  induction changes generalizing env with
  | nil => exact h
  | cons c cs ih => exact ih (h.change c)

theorem keyed_ofList (vars : List (String × String)) : (ofList vars).Keyed := by
  suffices h : ∀ env : Environment, env.Keyed →
      (vars.foldl (fun env (name, value) => env.set name value) env).Keyed by
    refine h empty fun f hf => ?_
    rw [List.mem_singleton.mp hf]
    exact .nil
  induction vars with
  | nil => exact fun _ h => h
  | cons var vars ih => exact fun env h => ih _ (h.set _ _)

/-! ## What is seen of a stack of maps -/

/-- An environment answers every question as a stack of maps does. The list of its variables does not depend
on the order in which its frames hold their changes. -/
structure Shows (env : Environment) (s : Snapshots) : Prop where
  get : ∀ name, env.get? name = s.get? name
  contains : ∀ name, env.contains name = s.contains name
  depth : env.depth = s.depth
  visible : Lists s.top env.visible
  withPrefix : ∀ start,
    Lists (fun key => if (upper start).toList.isPrefixOf key.toList then s.top key else none)
      (env.withPrefix start)
  order : ∀ env' entries, Rearranged env env' → entries.Perm env'.merged → listed entries = env.visible

theorem Keyed.shows (h : env.Keyed) : env.Shows env.snapshots where
  get name := (env.get?_snapshots name).symm
  contains name := by rw [Snapshots.contains, get?_snapshots]; rfl
  depth := env.depth_snapshots.symm
  visible := by rw [top_snapshots]; exact lists_visible h
  withPrefix start := by rw [top_snapshots]; exact lists_withPrefix h start
  order _ _ hr hperm := listed_rearranged h hr hperm

/-! ## Closing a scope undoes what was done in it -/

/-- Never, on the way through the changes, are fewer than `floor` scopes open. -/
def StaysAbove (floor : Nat) (env : Environment) : List Change → Prop
  | [] => floor ≤ env.depth
  | c :: cs => floor ≤ env.depth ∧ StaysAbove floor (env.change c).2 cs

instance StaysAbove.decidable (floor : Nat) (env : Environment) (cs : List Change) :
    Decidable (StaysAbove floor env cs) :=
  match cs with
  | [] => inferInstanceAs (Decidable (floor ≤ env.depth))
  | c :: cs =>
    have := StaysAbove.decidable floor (env.change c).2 cs
    inferInstanceAs (Decidable (floor ≤ env.depth ∧ StaysAbove floor (env.change c).2 cs))

variable {floor : Nat}

theorem StaysAbove.le_depth {cs : List Change} (h : StaysAbove floor env cs) : floor ≤ env.depth := by
  cases cs with
  | nil => exact h
  | cons c cs => exact h.1

theorem KeepsFloor.truncate (h : floor ≤ env.depth) {depth : Nat}
    (h' : floor ≤ (env.truncateScopes depth).depth) : KeepsFloor floor env (env.truncateScopes depth) := by
  refine ⟨h', ?_⟩
  have hlength := congrArg List.length (env.frames_truncateScopes depth)
  simp only [length_frames, List.length_drop] at hlength
  unfold outermost
  rw [frames_truncateScopes, List.drop_drop, length_frames]
  congr 1
  omega

theorem KeepsFloor.change {c : Change} (h : floor ≤ env.depth) (h' : floor ≤ (env.change c).2.depth) :
    KeepsFloor floor env (env.change c).2 := by
  cases c with
  | set name value => exact .of_sameBelow (.set env name value) h
  | unset name => exact .of_sameBelow (.unset env name) h
  | push => exact .pushScope h
  | pop =>
    obtain ⟨scopes, base⟩ := env
    cases scopes with
    | nil => exact .refl h
    | cons f fs => exact .popScope (Nat.lt_succ_of_le h') rfl
  | truncate depth => exact .truncate h h'

theorem KeepsFloor.run {cs : List Change} (h : StaysAbove floor env cs) :
    KeepsFloor floor env (Change.run Environment.change env cs).2 := by
  induction cs generalizing env with
  | nil => exact .refl h
  | cons c cs ih =>
    obtain ⟨hle, hrest⟩ := h
    exact (KeepsFloor.change hle hrest.le_depth).trans (ih hrest)

/-- Changes that stay inside a scope are undone when that scope is closed. -/
theorem popScope?_run_pushScope {inside : List Change} (h : StaysAbove (env.depth + 1) env.pushScope inside)
    (hend : (Change.run change env.pushScope inside).2.depth = env.depth + 1) :
    (Change.run change env.pushScope inside).2.popScope? = some env := by
  have hkeeps := (KeepsFloor.run h).outermost_eq
  generalize (Change.run change env.pushScope inside).2 = last at hend hkeeps
  obtain ⟨scopes, base⟩ := last
  cases scopes with
  | nil => cases hend
  | cons f fs =>
    have hfs : fs.length = env.depth := by simpa [depth] using hend
    have hframes : fs ++ [base] = env.frames := by
      have hpush : env.pushScope.depth = env.depth + 1 := rfl
      simp only [outermost, hend, hpush, Nat.add_sub_cancel_left] at hkeeps
      exact hkeeps
    simp only [popScope?, Option.some.injEq]
    exact frames_injective hframes

end Environment

/-- **Overlays behave as copies.** From any list of variables on, any series of changes is answered as the
stack of complete maps answers it, and what can then be read is what the innermost map holds: each value, the
number of open scopes, and the list of all variables, or of those with some beginning, each once, as it was
last assigned, in the strict order of the upper-case names, in whatever order the frames hold them. Whatever
is done between the opening of a scope and the closing of the same scope is undone. -/
theorem Environment.overlays_refine_copies :
    (∀ (vars : List (String × String)) (changes : List Change),
      (Change.run change (ofList vars) changes).1 =
          (Change.run Snapshots.change (.ofList vars) changes).1 ∧
        Shows (Change.run change (ofList vars) changes).2
          (Change.run Snapshots.change (.ofList vars) changes).2) ∧
    (∀ (env : Environment) (inside : List Change), StaysAbove (env.depth + 1) env.pushScope inside →
      (Change.run change env.pushScope inside).2.depth = env.depth + 1 →
        (Change.run change env.pushScope inside).2.popScope? = some env) := by
  refine ⟨fun vars changes => ?_, fun env inside h hend => popScope?_run_pushScope h hend⟩
  rw [← snapshots_ofList, run_snapshots]
  exact ⟨rfl, (keyed_run (keyed_ofList vars) changes).shows⟩

/-- A variable that is deleted and set again with another spelling, in a scope in which another one is opened
and cut off: closing the scope brings the first spelling and value back. -/
theorem Environment.overlays_refine_copies_path :
    let env := ofList [("Path", "/bin")]
    let inside : List Change :=
      [.unset "path", .set "PATH" "/usr", .push, .unset "PATH", .truncate 1]
    StaysAbove (env.depth + 1) env.pushScope inside ∧
      (Change.run change env.pushScope inside).2.popScope? = some env ∧
      Lists (Snapshots.ofList [("Path", "/bin")]).top env.visible := by
  intro env inside
  obtain ⟨hshows, hundone⟩ := overlays_refine_copies
  have habove : StaysAbove (env.depth + 1) env.pushScope inside := by decide +kernel
  have hend : (Change.run change env.pushScope inside).2.depth = env.depth + 1 := by decide +kernel
  have hlists : Lists (Change.run Snapshots.change (.ofList [("Path", "/bin")]) []).2.top
      (Change.run change env []).2.visible := (hshows _ []).2.visible
  exact ⟨habove, hundone env inside habove hend, hlists⟩

end BatchShell
