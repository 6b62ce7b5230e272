import BatchShell.Engine.Pipeline

/-!
# Stages between pipes

The stages of a pipeline run at the same time, and a pipe joins each to the next. A pipe holds a bounded number of
pieces; who writes to a full one waits, and so does who reads from an empty one. Neither side decides how the other
cuts the bytes: a writer chooses its pieces, a reader the sizes it asks for.

* `Pipe.read?` and `Pipe.write?` are what the two sides do; `none` means that they have to wait.
  `Pipe.read?_eq_some` and `Pipe.write?_eq_some` say what becomes of the content.
* `Live` is what programs do step by step, and `Live.Yields` that one reads all its input and comes to a known end,
  however its input arrives.
* `Live.Acts` is one step of a stage between two pipes. `Duty` forgets the pipes: it is a stage with all that it will
  still be given, all that it will still write and the end it will come to. `Live.Acts.does` takes the first to the
  second, where a stage's end is settled (`Live.Does.owed`) and comes after finitely many steps (`Duty.Owed.acc`).
* `Duty.Owed.acts`: a stage with room for its output waits for nothing but its input.
-/
namespace BatchShell

/-! ## Pipes -/

/-- A pipe. It has room for a piece, and no piece is empty. -/
structure Pipe where
  /-- How many pieces wait at most; `none` for a buffer that takes everything. -/
  capacity : Option Nat
  /-- What is left of the piece that is being read. -/
  pending : Bytes
  /-- The pieces that wait, the oldest first. -/
  queue : List Bytes
  /-- Is the writer gone? -/
  closed : Bool
  /-- Is the reader gone? -/
  abandoned : Bool
  room : capacity ≠ some 0
  pieces : [] ∉ queue

namespace Pipe

/-- The pipe between two stages. -/
def between (buffer : Nat) : Pipe := ⟨some (max 1 buffer), [], [], false, false, by simp, by simp⟩

/-- What catches the output of the last stage. -/
def capture : Pipe := ⟨none, [], [], false, false, by simp, by simp⟩

/-- The input of the first stage. -/
def holding (bytes : Bytes) : Pipe := ⟨none, bytes, [], true, false, by simp, by simp⟩

/-- All that was written and not yet read. -/
def content (p : Pipe) : Bytes := p.pending ++ p.queue.flatten

/-- The writer leaves. -/
def close (p : Pipe) : Pipe := { p with closed := true }

/-- The reader leaves. -/
def abandon (p : Pipe) : Pipe := { p with abandoned := true }

/-- Take up the next piece when the last one is used up. -/
def refill : Pipe → Pipe
  | ⟨capacity, [], piece :: queue, closed, abandoned, room, pieces⟩ =>
    ⟨capacity, piece, queue, closed, abandoned, room, fun h => pieces (.tail _ h)⟩
  | p => p

/-- Read at most `size` bytes of one piece. Nothing comes when the writer is gone; before that, one waits. -/
def read? (p : Pipe) (size : Nat) : Option (Bytes × Pipe) :=
  if p.refill.pending = [] ∧ p.closed = false then none
  else some (p.refill.pending.take size, { p.refill with pending := p.refill.pending.drop size })

/-- Write a piece; `false` when the reader is gone. Nothing is done to write nothing. -/
def write? (p : Pipe) (piece : Bytes) : Option (Bool × Pipe) :=
  if h : piece = [] then some (true, p)
  else if p.abandoned then some (false, p)
  else if p.capacity.any (· ≤ p.queue.length) then none
  else some (true, { p with
    queue := p.queue ++ [piece]
    pieces := by simp [p.pieces, Ne.symm h] })

/-- What a pipe is, apart from what is in it. -/
def frame (p : Pipe) : Option Nat × Bool × Bool := (p.capacity, p.closed, p.abandoned)

@[simp] theorem content_abandon (p : Pipe) : p.abandon.content = p.content := rfl

@[simp] theorem frame_refill (p : Pipe) : p.refill.frame = p.frame := by
  unfold refill
  split <;> rfl

@[simp] theorem content_refill (p : Pipe) : p.refill.content = p.content := by
  unfold refill
  split
  · simp [content]
  · rfl

/-- No piece is empty, so there is something to read once a piece was taken up. -/
theorem pending_refill_eq_nil {p : Pipe} : p.refill.pending = [] ↔ p.content = [] := by
  obtain ⟨capacity, _ | ⟨byte, pending⟩, _ | ⟨piece, queue⟩, closed, abandoned, room, pieces⟩ := p
  · simp [refill, content]
  · have hpiece : piece ≠ [] := fun h => pieces (by simp [h])
    simp [refill, content, hpiece]
  · simp [refill, content]
  · simp [refill, content]

/-- What is read comes off the front of the content. It is nothing only if nothing was asked for or the end was
reached. -/
theorem read?_eq_some {p p' : Pipe} {size : Nat} {bytes : Bytes} (h : p.read? size = some (bytes, p')) :
    p.content = bytes ++ p'.content ∧ bytes.length ≤ size ∧
      (bytes = [] → size = 0 ∨ p.content = [] ∧ p.closed = true) ∧ p'.frame = p.frame := by
  unfold read? at h
  split at h
  · cases h
  · rename_i hready
    cases h
    refine ⟨?_, List.length_take_le _ _, fun hnothing => ?_, p.frame_refill⟩
    · rw [← content_refill p]
      simp [content, ← List.append_assoc]
    · rw [List.take_eq_nil_iff, pending_refill_eq_nil] at hnothing
      rw [pending_refill_eq_nil] at hready
      rcases hnothing with hsize | hempty
      · exact .inl hsize
      · exact .inr ⟨hempty, by simpa [hempty] using hready⟩

theorem exists_read? {p : Pipe} (h : ¬ (p.content = [] ∧ p.closed = false)) (size : Nat) :
    ∃ bytes p', p.read? size = some (bytes, p') := by
  rw [← pending_refill_eq_nil] at h
  exact ⟨_, _, if_neg h⟩

/-- What is written goes behind the content, if anyone is there to read it. -/
theorem write?_eq_some {p p' : Pipe} {piece : Bytes} {ok : Bool} (h : p.write? piece = some (ok, p'))
    (hreader : p.abandoned = true → piece = []) :
    ok = true ∧ p'.content = p.content ++ piece ∧ p'.frame = p.frame := by
  unfold write? at h
  split at h
  · rename_i hempty
    cases h
    simp [hempty]
  · rename_i hempty
    split at h
    · rename_i hgone
      exact absurd (hreader hgone) hempty
    · split at h
      · cases h
      · cases h
        simp [content, frame]

/-- An empty pipe has room, and so has one that takes everything. -/
theorem exists_write? {p : Pipe} (h : p.content = [] ∨ p.capacity = none) (piece : Bytes) :
    ∃ ok p', p.write? piece = some (ok, p') := by
  have hroom : p.capacity.any (· ≤ p.queue.length) = false := by
    rcases h with hempty | hnone
    · have hqueue : p.queue = [] := by
        cases hq : p.queue with
        | nil => rfl
        | cons first queue =>
          have hfirst : first = [] := by simp_all [content]
          exact absurd (by simp [hq, hfirst]) p.pieces
      cases hcapacity : p.capacity with
      | none => rfl
      | some capacity =>
        have hpositive : capacity ≠ 0 := fun h => p.room (by rw [hcapacity, h])
        simp [hqueue, hpositive]
    · simp [hnone]
  unfold write?
  split
  · exact ⟨_, _, rfl⟩
  · split
    · exact ⟨_, _, rfl⟩
    · rw [hroom]
      exact ⟨_, _, rfl⟩

end Pipe

/-! ## Programs, step by step -/

/-- What a program does next, and how it goes on. -/
inductive Action (σ : Type) where
  /-- Ask for at most `size` bytes of input. -/
  | read (size : Nat) (next : Bytes → σ)
  /-- Write a piece. The program learns whether anyone reads it. -/
  | write (piece : Bytes) (next : Bool → σ)
  | exit (stderr : Bytes) (ending : ProgramEnd)

/-- What programs do step by step. A program may be able to do several things, as one that reads and writes at the
same time. -/
structure Live (σ : Type) where
  /-- A program that was just started. Its input is not part of the request. -/
  start : ProgramRequest → Bool → FileTree → σ
  may : σ → Action σ → Prop

/-- In the state `s` and with `rest` to come, the program reads all that comes, writes `togo` and ends so. It never
stops before, and it does not go on for ever, in whatever portions its input arrives. -/
inductive Live.Yields {σ : Type} (live : Live σ) (stderr : Bytes) (ending : ProgramEnd) : σ → Bytes → Bytes → Prop
  | intro {s : σ} {rest togo : Bytes} (goes : ∃ action, live.may s action)
    (read : ∀ size next, live.may s (.read size next) → ∀ bytes later, rest = bytes ++ later →
      bytes.length ≤ size → (bytes = [] → size = 0 ∨ later = []) → live.Yields stderr ending (next bytes) later togo)
    (fits : ∀ piece next, live.may s (.write piece next) → piece <+: togo)
    (write : ∀ piece next, live.may s (.write piece next) →
      live.Yields stderr ending (next true) rest (togo.drop piece.length))
    (exit : ∀ stderr' ending', live.may s (.exit stderr' ending') →
      rest = [] ∧ togo = [] ∧ stderr' = stderr ∧ ending' = ending) :
    live.Yields stderr ending s rest togo

/-! ## Stages -/

/-- The errors and the status that a stage ends with. -/
abbrev Verdict := String × Status

def StageResult.verdict (r : StageResult) : Verdict := (r.stderr, r.status)

/-- A stage that is running. -/
inductive Stage (σ : Type) where
  /-- A program, which reads and writes while it runs. -/
  | program (name : String) (s : σ)
  /-- Any other stage first reads its whole input. -/
  | reading (run : Bytes → Option StageResult) (got : Bytes)
  /-- The input is done with; this is left to write. -/
  | writing (out : Bytes) (verdict : Verdict)
  | ended (verdict : Verdict)

def Stage.isEnded {σ : Type} : Stage σ → Bool
  | .ended _ => true
  | _ => false

variable {σ : Type}

/-- What one stage does between its two pipes. -/
inductive Live.Acts (live : Live σ) : Pipe × Stage σ × Pipe → Pipe × Stage σ × Pipe → Prop
  | programReads {name : String} {s : σ} {size : Nat} {next : Bytes → σ} {p p' q : Pipe} {bytes : Bytes}
    (may : live.may s (.read size next)) (read : p.read? size = some (bytes, p')) :
    live.Acts (p, .program name s, q) (p', .program name (next bytes), q)
  | programWrites {name : String} {s : σ} {piece : Bytes} {next : Bool → σ} {p q q' : Pipe} {ok : Bool}
    (may : live.may s (.write piece next)) (write : q.write? piece = some (ok, q')) :
    live.Acts (p, .program name s, q) (p, .program name (next ok), q')
  | programExits {name : String} {s : σ} {stderr : Bytes} {ending : ProgramEnd} {p q : Pipe}
    (may : live.may s (.exit stderr ending)) :
    live.Acts (p, .program name s, q) (p.abandon, .writing [] (ending.verdict name stderr), q)
  | reads {run : Bytes → Option StageResult} {got bytes : Bytes} {size : Nat} {p p' q : Pipe}
    (read : p.read? size = some (bytes, p')) (nonempty : bytes ≠ []) :
    live.Acts (p, .reading run got, q) (p', .reading run (got ++ bytes), q)
  | runs {run : Bytes → Option StageResult} {got : Bytes} {size : Nat} {p p' q : Pipe} {r : StageResult}
    (asked : size ≠ 0) (read : p.read? size = some ([], p')) (ran : run got = some r) :
    live.Acts (p, .reading run got, q) (p'.abandon, .writing r.stdout r.verdict, q)
  | writes {out : Bytes} {verdict : Verdict} {p q q' : Pipe} {ok : Bool} (nonempty : out ≠ [])
    (write : q.write? out = some (ok, q')) :
    live.Acts (p, .writing out verdict, q) (p, .writing [] verdict, q')
  | ends {verdict : Verdict} {p q : Pipe} :
    live.Acts (p, .writing [] verdict, q) (p, .ended verdict, q.close)

/-! ## Duties -/

/-- A stage with what it will still be given, what it will still write and what it will end with, if it ends. -/
structure Duty (σ : Type) where
  stage : Stage σ
  rest : Bytes
  togo : Bytes
  verdict : Option Verdict

/-- The stage will do its duty. A stage that does not come to an end writes nothing. -/
def Duty.Owed (live : Live σ) (d : Duty σ) : Prop :=
  match d.stage with
  | .program name s => ∃ stderr ending, live.Yields stderr ending s d.rest d.togo ∧
      d.verdict = some (ending.verdict name stderr)
  | .reading run got => d.togo = ((run (got ++ d.rest)).map (·.stdout)).getD [] ∧
      d.verdict = (run (got ++ d.rest)).map (·.verdict)
  | .writing out verdict => d.rest = [] ∧ d.togo = out ∧ d.verdict = some verdict
  | .ended verdict => d.rest = [] ∧ d.togo = [] ∧ d.verdict = some verdict

/-- What a stage does, without regard to where its input comes from and where its output goes. -/
inductive Live.Does (live : Live σ) : Duty σ → Duty σ → Prop
  | programReads {name : String} {s : σ} {size : Nat} {next : Bytes → σ} {bytes rest togo : Bytes}
    {verdict : Option Verdict} (may : live.may s (.read size next)) (short : bytes.length ≤ size)
    (atEnd : bytes = [] → size = 0 ∨ rest = []) :
    live.Does ⟨.program name s, bytes ++ rest, togo, verdict⟩ ⟨.program name (next bytes), rest, togo, verdict⟩
  | programWrites {name : String} {s : σ} {piece : Bytes} {next : Bool → σ} {rest togo : Bytes}
    {verdict : Option Verdict} (may : live.may s (.write piece next)) :
    live.Does ⟨.program name s, rest, piece ++ togo, verdict⟩ ⟨.program name (next true), rest, togo, verdict⟩
  | programExits {name : String} {s : σ} {stderr : Bytes} {ending : ProgramEnd} {rest togo : Bytes}
    {verdict : Option Verdict} (may : live.may s (.exit stderr ending)) :
    live.Does ⟨.program name s, rest, togo, verdict⟩
      ⟨.writing [] (ending.verdict name stderr), rest, togo, verdict⟩
  | reads {run : Bytes → Option StageResult} {got bytes rest togo : Bytes} {verdict : Option Verdict}
    (nonempty : bytes ≠ []) :
    live.Does ⟨.reading run got, bytes ++ rest, togo, verdict⟩ ⟨.reading run (got ++ bytes), rest, togo, verdict⟩
  | runs {run : Bytes → Option StageResult} {got togo : Bytes} {verdict : Option Verdict} {r : StageResult}
    (ran : run got = some r) :
    live.Does ⟨.reading run got, [], togo, verdict⟩ ⟨.writing r.stdout r.verdict, [], togo, verdict⟩
  | writes {out rest togo : Bytes} {verdict : Verdict} {verdict' : Option Verdict} (nonempty : out ≠ []) :
    live.Does ⟨.writing out verdict, rest, out ++ togo, verdict'⟩ ⟨.writing [] verdict, rest, togo, verdict'⟩
  | ends {rest togo : Bytes} {verdict : Verdict} {verdict' : Option Verdict} :
    live.Does ⟨.writing [] verdict, rest, togo, verdict'⟩ ⟨.ended verdict, rest, togo, verdict'⟩

variable {live : Live σ}

/-- A stage's end does not change while it works towards it. -/
theorem Live.Does.verdict_eq {d d' : Duty σ} (h : live.Does d d') : d'.verdict = d.verdict := by
  cases h <;> rfl

/-- What a stage owes after a step is what it owed before, less what it has done. -/
theorem Live.Does.owed {d d' : Duty σ} (h : live.Does d d') (howed : d.Owed live) : d'.Owed live := by
  cases h with
  | programReads may short atEnd =>
    obtain ⟨stderr, ending, hyields, hverdict⟩ := howed
    cases hyields with
    | intro _ read _ _ _ => exact ⟨stderr, ending, read _ _ may _ _ rfl short atEnd, hverdict⟩
  | programWrites may =>
    obtain ⟨stderr, ending, hyields, hverdict⟩ := howed
    cases hyields with
    | intro _ _ _ write _ =>
      have hnext := write _ _ may
      rw [List.drop_left] at hnext
      exact ⟨stderr, ending, hnext, hverdict⟩
  | programExits may =>
    obtain ⟨stderr, ending, hyields, hverdict⟩ := howed
    cases hyields with
    | intro _ _ _ _ exit =>
      obtain ⟨hrest, htogo, rfl, rfl⟩ := exit _ _ may
      exact ⟨hrest, htogo, hverdict⟩
  | reads =>
    simp only [Duty.Owed, List.append_assoc] at howed ⊢
    exact howed
  | runs ran =>
    simp only [Duty.Owed, List.append_nil, ran, Option.map_some, Option.getD_some] at howed ⊢
    exact ⟨trivial, howed⟩
  | @writes out rest togo _ _ _ =>
    obtain ⟨hrest, htogo, hverdict⟩ := howed
    exact ⟨hrest, by simpa using htogo, hverdict⟩
  | ends => exact howed

/-! ## No stage works for ever -/

theorem Live.acc_ended (live : Live σ) (verdict : Verdict) (rest togo : Bytes)
    (verdict' : Option Verdict) :
    Acc (fun d' d => live.Does d d') ⟨.ended verdict, rest, togo, verdict'⟩ :=
  ⟨_, fun _ h => nomatch h⟩

theorem Live.acc_written (live : Live σ) (verdict : Verdict) (rest togo : Bytes)
    (verdict' : Option Verdict) :
    Acc (fun d' d => live.Does d d') ⟨.writing [] verdict, rest, togo, verdict'⟩ := by
  refine ⟨_, fun d h => ?_⟩
  cases h with
  | writes nonempty => exact absurd rfl nonempty
  | ends => exact live.acc_ended verdict rest togo verdict'

theorem Live.acc_writing (live : Live σ) (out : Bytes) (verdict : Verdict) (rest togo : Bytes)
    (verdict' : Option Verdict) :
    Acc (fun d' d => live.Does d d') ⟨.writing out verdict, rest, togo, verdict'⟩ := by
  refine ⟨_, fun d h => ?_⟩
  cases h with
  | writes nonempty => exact live.acc_written verdict rest _ verdict'
  | ends => exact live.acc_ended verdict rest togo verdict'

/-- Each read leaves less to read. -/
theorem Live.acc_reading (live : Live σ) (run : Bytes → Option StageResult) (got rest togo : Bytes)
    (verdict : Option Verdict) :
    Acc (fun d' d => live.Does d d') ⟨.reading run got, rest, togo, verdict⟩ := by
  induction hlength : rest.length using Nat.strongRecOn generalizing got rest with
  | ind length ih =>
    refine ⟨_, fun d h => ?_⟩
    cases h with
    | @reads _ _ bytes later _ _ nonempty =>
      refine ih later.length ?_ _ later rfl
      have := List.length_pos_iff.mpr nonempty
      simp only [List.length_append] at hlength
      omega
    | runs ran => exact live.acc_writing _ _ _ togo verdict

theorem Live.Yields.acc {stderr : Bytes} {ending : ProgramEnd} {s : σ} {rest togo : Bytes}
    (h : live.Yields stderr ending s rest togo) (name : String) (verdict : Option Verdict) :
    Acc (fun d' d => live.Does d d') ⟨.program name s, rest, togo, verdict⟩ := by
  induction h with
  | intro _ _ _ _ _ ihread ihwrite =>
    refine ⟨_, fun d h => ?_⟩
    cases h with
    | programReads may short atEnd => exact ihread _ _ may _ _ rfl short atEnd
    | programWrites may =>
      have hnext := ihwrite _ _ may
      rwa [List.drop_left] at hnext
    | programExits may => exact live.acc_written _ _ _ verdict

theorem Duty.Owed.acc {d : Duty σ} (h : d.Owed live) : Acc (fun d' d => live.Does d d') d := by
  obtain ⟨stage, rest, togo, verdict⟩ := d
  cases stage with
  | program name s =>
    obtain ⟨stderr, ending, hyields, -⟩ := h
    exact hyields.acc name verdict
  | reading run got => exact live.acc_reading run got rest togo verdict
  | writing out verdict' => exact live.acc_writing out verdict' rest togo verdict
  | ended verdict' => exact live.acc_ended verdict' rest togo verdict

/-! ## A stage between its pipes does its duty -/

/-- `more` is what will still be written to the pipe: nothing when the writer is gone, and nothing is left when the
reader is. -/
structure Pipe.Fits (p : Pipe) (more : Bytes) : Prop where
  closed : p.closed = true → more = []
  abandoned : p.abandoned = true → p.content ++ more = []

section

variable {p p' q q' : Pipe} {more togo : Bytes}

theorem Pipe.Fits.read (h : p.Fits more) {bytes : Bytes} (hcontent : p.content = bytes ++ p'.content)
    (hframe : p'.frame = p.frame) : p'.Fits more := by
  obtain ⟨hclosed, habandoned⟩ := h
  simp only [Pipe.frame, Prod.mk.injEq] at hframe
  obtain ⟨-, hc, ha⟩ := hframe
  refine ⟨fun h => hclosed (hc ▸ h), fun h => ?_⟩
  have hnothing := habandoned (ha ▸ h)
  rw [hcontent, List.append_assoc] at hnothing
  exact (List.append_eq_nil_iff.mp hnothing).2

theorem Pipe.Fits.write {piece : Bytes} (h : q.Fits (piece ++ togo)) (hcontent : q'.content = q.content ++ piece)
    (hframe : q'.frame = q.frame) : q'.Fits togo := by
  obtain ⟨hclosed, habandoned⟩ := h
  simp only [Pipe.frame, Prod.mk.injEq] at hframe
  obtain ⟨-, hc, ha⟩ := hframe
  refine ⟨fun h => (List.append_eq_nil_iff.mp (hclosed (hc ▸ h))).2, fun h => ?_⟩
  rw [hcontent, List.append_assoc]
  exact habandoned (ha ▸ h)

/-- Nothing comes any more once the writer is gone and all is read. -/
theorem Pipe.Fits.at_end (h : p.Fits more) (hempty : p.content = []) (hclosed : p.closed = true) :
    p.content ++ more = [] := by
  rw [hempty, h.closed hclosed, List.nil_append]

theorem Pipe.Fits.abandon (h : p.Fits more) (hnothing : p.content ++ more = []) : p.abandon.Fits more :=
  ⟨h.closed, fun _ => hnothing⟩

/-- Who owes a piece finds a reader for it. -/
theorem Pipe.Fits.write?_eq_some {piece : Bytes} {ok : Bool} (h : q.Fits (piece ++ togo))
    (hwrite : q.write? piece = some (ok, q')) :
    ok = true ∧ q'.content = q.content ++ piece ∧ q'.frame = q.frame := by
  refine Pipe.write?_eq_some hwrite fun hgone => ?_
  have hnothing := h.abandoned hgone
  simp only [List.append_eq_nil_iff] at hnothing
  exact hnothing.2.1

/-- A step of a stage does a part of its duty. What it takes is gone from its input, and what it gives is in its
output. -/
theorem Live.Acts.does {stage stage' : Stage σ} {verdict : Option Verdict}
    (h : live.Acts (p, stage, q) (p', stage', q')) (hp : p.Fits more) (hq : q.Fits togo)
    (howed : Duty.Owed live ⟨stage, p.content ++ more, togo, verdict⟩) (hclosed : q.closed = stage.isEnded) :
    ∃ togo', live.Does ⟨stage, p.content ++ more, togo, verdict⟩ ⟨stage', p'.content ++ more, togo', verdict⟩ ∧
      p'.Fits more ∧ p'.closed = p.closed ∧ q'.Fits togo' ∧ q'.content ++ togo' = q.content ++ togo ∧
      q'.capacity = q.capacity ∧ q'.closed = stage'.isEnded := by
  cases h with
  | programReads may read =>
    obtain ⟨hcontent, hshort, hnothing, hframe⟩ := Pipe.read?_eq_some read
    have hinput := congrArg (· ++ more) hcontent
    simp only [List.append_assoc] at hinput
    refine ⟨togo, ?_, hp.read hcontent hframe, congrArg (·.2.1) hframe, hq, rfl, rfl, hclosed⟩
    rw [hinput]
    refine .programReads may hshort fun hempty => ?_
    rcases hnothing hempty with hsize | ⟨hall, hend⟩
    · exact .inl hsize
    · right
      have hrest := hp.at_end hall hend
      rw [hinput] at hrest
      exact (List.append_eq_nil_iff.mp hrest).2
  | programWrites may write =>
    obtain ⟨stderr, ending, hyields, -⟩ := howed
    cases hyields with
    | intro _ _ fits _ _ =>
      obtain ⟨togo', rfl⟩ := fits _ _ may
      obtain ⟨rfl, hcontent, hframe⟩ := hq.write?_eq_some write
      refine ⟨togo', .programWrites may, hp, rfl, hq.write hcontent hframe, ?_, congrArg (·.1) hframe,
        (congrArg (·.2.1) hframe).trans hclosed⟩
      rw [hcontent, List.append_assoc]
  | programExits may =>
    obtain ⟨stderr, ending, hyields, -⟩ := howed
    cases hyields with
    | intro _ _ _ _ exit =>
      have hrest := (exit _ _ may).1
      exact ⟨togo, .programExits may, hp.abandon hrest, rfl, hq, rfl, rfl, hclosed⟩
  | reads read nonempty =>
    obtain ⟨hcontent, -, -, hframe⟩ := Pipe.read?_eq_some read
    refine ⟨togo, ?_, hp.read hcontent hframe, congrArg (·.2.1) hframe, hq, rfl, rfl, hclosed⟩
    rw [hcontent, List.append_assoc]
    exact .reads nonempty
  | @runs _ _ _ _ read' _ _ asked read ran =>
    obtain ⟨hcontent, -, hnothing, hframe⟩ := Pipe.read?_eq_some read
    obtain ⟨hall, hend⟩ := (hnothing rfl).resolve_left asked
    have hrest := hp.at_end hall hend
    have hrest' : read'.content ++ more = [] := by rwa [hcontent] at hrest
    refine ⟨togo, ?_, (hp.read hcontent hframe).abandon hrest', congrArg (·.2.1) hframe, hq, rfl, rfl, hclosed⟩
    rw [Pipe.content_abandon, hrest, hrest']
    exact .runs ran
  | @writes out _ _ _ _ _ nonempty write =>
    obtain ⟨-, htogo, -⟩ := howed
    obtain rfl : togo = out ++ [] := by simpa using htogo
    obtain ⟨rfl, hcontent, hframe⟩ := hq.write?_eq_some write
    refine ⟨[], .writes nonempty, hp, rfl, hq.write hcontent hframe, ?_, congrArg (·.1) hframe,
      (congrArg (·.2.1) hframe).trans hclosed⟩
    rw [hcontent, List.append_assoc]
  | ends =>
    obtain ⟨-, rfl, -⟩ := howed
    exact ⟨[], .ends, hp, rfl, ⟨fun _ => rfl, hq.abandoned⟩, rfl, rfl, rfl⟩

/-- A stage that will end and has room for what it writes waits for nothing but its input. -/
theorem Duty.Owed.acts {stage : Stage σ} {verdict : Verdict}
    (howed : Duty.Owed live ⟨stage, p.content ++ more, togo, some verdict⟩) (hp : p.Fits more)
    (hroom : q.content = [] ∨ q.capacity = none) :
    stage.isEnded = true ∨ (∃ next, live.Acts (p, stage, q) next) ∨ (p.content = [] ∧ p.closed = false) := by
  by_cases hwaits : p.content = [] ∧ p.closed = false
  · exact .inr (.inr hwaits)
  cases stage with
  | program name s =>
    obtain ⟨stderr, ending, hyields, -⟩ := howed
    cases hyields with
    | intro goes _ _ _ _ =>
      obtain ⟨action, may⟩ := goes
      cases action with
      | read size next =>
        obtain ⟨bytes, p', hread⟩ := Pipe.exists_read? hwaits size
        exact .inr (.inl ⟨_, .programReads may hread⟩)
      | write piece next =>
        obtain ⟨ok, q', hwrite⟩ := Pipe.exists_write? hroom piece
        exact .inr (.inl ⟨_, .programWrites may hwrite⟩)
      | exit stderr ending => exact .inr (.inl ⟨_, .programExits may⟩)
  | reading run got =>
    obtain ⟨bytes, p', hread⟩ := Pipe.exists_read? hwaits 1
    by_cases hend : bytes = []
    · subst hend
      obtain ⟨-, -, hnothing, -⟩ := Pipe.read?_eq_some hread
      obtain ⟨hall, hclosed⟩ := (hnothing rfl).resolve_left Nat.one_ne_zero
      obtain ⟨-, hverdict⟩ := howed
      rw [hp.at_end hall hclosed, List.append_nil] at hverdict
      obtain ⟨r, hran, -⟩ := Option.map_eq_some_iff.mp hverdict.symm
      exact .inr (.inl ⟨_, .runs Nat.one_ne_zero hread hran⟩)
    · exact .inr (.inl ⟨_, .reads hread hend⟩)
  | writing out verdict' =>
    by_cases hdone : out = []
    · subst hdone
      exact .inr (.inl ⟨_, .ends⟩)
    · obtain ⟨ok, q', hwrite⟩ := Pipe.exists_write? hroom out
      exact .inr (.inl ⟨_, .writes hdone hwrite⟩)
  | ended verdict' => exact .inl rfl

end

end BatchShell
