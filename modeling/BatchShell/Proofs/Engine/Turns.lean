import BatchShell.Proofs.Engine.Frames
import BatchShell.Proofs.Numeral.Constants

/-!
# The turns of a loop

The body of a loop runs once for each value, in order. `Turns` is a row of turns that all came to a result: each
starts in the machine that the one before left, with the letter of the loop, and no other, bound to its value.
`Looped` says how a loop can end:

* every value that there is room for had its turn, and the loop has a complaint if a value is left over;
* a turn ended with a signal, which takes the outputs of the turns before it along, and no turn followed;
* a turn broke off, or did not come to an end.

The engine takes values one by one and writes results behind each other. `iterate_turns` follows it over a row of
turns, and `iterate_looped` to the end of the loop.
-/
namespace BatchShell

/-- The machine in which a turn starts: the innermost loop has its letter bound to a value, and the loops around it
are as they were. -/
def Machine.turn (m : Machine) (outer : List LoopFrame) (letter : Char) (value : String) : Machine :=
  m.withState { m.state with loops := [(letter, value)] :: outer }

/-- The body came to a result for each of the values, one after another. -/
inductive Turns (body : Machine → Run) (letter : Char) (outer : List LoopFrame) :
    Machine → List String → List Result → Machine → Prop where
  | none {m} : Turns body letter outer m [] [] m
  | next {m value r m' values rs last} (run : body (m.turn outer letter value) = some (.done r, m'))
      (rest : Turns body letter outer m' values rs last) : Turns body letter outer m (value :: values) (r :: rs) last

/-- The outputs of turns, one behind the other. -/
def turnsOutput (rs : List Result) : String := String.join (rs.map (·.stdout))

/-- The errors of turns, one behind the other. -/
def turnsErrors (rs : List Result) : String := String.join (rs.map (·.stderr))

/-- What a loop gives after its turns: the status is that of the last one, and without any turn it stays as it was.
If a value is left over, there is a complaint and the status is 1. -/
def turnsResult (limit : Nat) (leftOver : Bool) (before : Status) (rs : List Result) : Result :=
  if leftOver then ⟨turnsOutput rs, turnsErrors rs ++ tooManyIterations limit, 1⟩
  else ⟨turnsOutput rs, turnsErrors rs, (rs.getLast?.map (·.status)).getD before⟩

/-- How a loop ends that enters its first turn in the machine `m` and has room for a turn for each of the values. -/
inductive Looped (body : Machine → Run) (letter : Char) (outer : List LoopFrame) (limit : Nat) (leftOver : Bool)
    (m : Machine) : List String → Run → Prop where
  /-- Every value had its turn. -/
  | finished {values rs last} (turns : Turns body letter outer m values rs last) :
    Looped body letter outer limit leftOver m values
      (some (.done (turnsResult limit leftOver m.state.status rs), last))
  /-- The turn of a value ended with a signal, and no later value had one. -/
  | raised {values value later rs last signal out err m'} (turns : Turns body letter outer m values rs last)
    (run : body (last.turn outer letter value) = some (.raised signal out err, m')) :
    Looped body letter outer limit leftOver m (values ++ value :: later)
      (some (.raised signal (turnsOutput rs ++ out) (turnsErrors rs ++ err), m'))
  /-- The interpreter broke off in the turn of a value. -/
  | crashed {values value later rs last why m'} (turns : Turns body letter outer m values rs last)
    (run : body (last.turn outer letter value) = some (.crashed why, m')) :
    Looped body letter outer limit leftOver m (values ++ value :: later) (some (.crashed why, m'))
  /-- The turn of a value does not end. -/
  | endless {values value later rs last} (turns : Turns body letter outer m values rs last)
    (run : body (last.turn outer letter value) = none) :
    Looped body letter outer limit leftOver m (values ++ value :: later) none

theorem foldl_append_results (rs : List Result) (r : Result) : rs.foldl Result.append r =
    ⟨r.stdout ++ turnsOutput rs, r.stderr ++ turnsErrors rs, (rs.getLast?.map (·.status)).getD r.status⟩ := by
  induction rs generalizing r with
  | nil => simp [turnsOutput, turnsErrors]
  | cons next rs ih =>
    rw [List.foldl_cons, ih]
    simp only [Result.append, turnsOutput, turnsErrors, List.map_cons, String.join_cons, String.append_assoc,
      List.getLast?_cons]
    cases rs.getLast? <;> rfl

/-! ## Binding one value -/

theorem Loop.bind_single (letter : Char) (value : String) : Loop.bind letter [value] = [(letter, value)] := by
  have hletter : Loop.letterAfter? letter 0 = some letter := by
    have hvalid : letter.toNat.isValidChar := letter.valid
    simp [Loop.letterAfter?, Text.charOfCode?, hvalid]
  simp [Loop.bind, hletter]

theorem bindLoop_eq_turn {m : Machine} {outer : List LoopFrame} (h : m.state.loops.drop 1 = outer) (letter : Char)
    (value : String) : m.withState (m.state.bindLoop (Loop.bind letter [value])) = m.turn outer letter value := by
  rw [State.bindLoop, Loop.bind_single, h, Machine.turn]

/-! ## Rows of turns -/

section

variable {body : Machine → Run} {letter : Char} {outer : List LoopFrame} {limit : Nat} {m : Machine}

/-- Either all values have their turns, or there is a first one whose turn gives no result. -/
theorem Turns.all_or_first (body : Machine → Run) (letter : Char) (outer : List LoopFrame) (m : Machine)
    (values : List String) :
    (∃ rs last, Turns body letter outer m values rs last) ∨
      ∃ done value later rs last, values = done ++ value :: later ∧ Turns body letter outer m done rs last ∧
        ∀ r m', body (last.turn outer letter value) ≠ some (.done r, m') := by
  induction values generalizing m with
  | nil => exact .inl ⟨[], m, .none⟩
  | cons value values ih =>
    by_cases hrun : ∃ r m', body (m.turn outer letter value) = some (.done r, m')
    · obtain ⟨r, m', hrun⟩ := hrun
      obtain ⟨rs, last, hturns⟩ | ⟨done, first, later, rs, last, rfl, hturns, hfirst⟩ := ih m'
      · exact .inl ⟨r :: rs, last, .next hrun hturns⟩
      · exact .inr ⟨value :: done, first, later, r :: rs, last, rfl, .next hrun hturns, hfirst⟩
    · exact .inr ⟨[], value, values, [], m, rfl, .none, fun r m' h => hrun ⟨r, m', h⟩⟩

theorem Loop.Values.Yields.split {vs rest : Loop.Values} {done later : List String} {value : String}
    (h : vs.Yields (done ++ value :: later) rest) :
    ∃ mid next, vs.Yields done mid ∧ mid.next? = some ([value], next) := by
  induction done generalizing vs with
  | nil =>
    cases h with
    | next head tail => exact ⟨vs, _, .none, head⟩
  | cons first done ih =>
    cases h with
    | next head tail =>
      obtain ⟨mid, next, hyields, hnext⟩ := ih tail
      exact ⟨mid, next, .next head hyields, hnext⟩

/-- While there is room, the next value has its turn. -/
theorem iterate_next {vs next : Loop.Values} {value : String} (hnext : vs.next? = some ([value], next))
    (hloops : m.state.loops.drop 1 = outer) (room : Nat) (result : Result) :
    iterate limit letter body (room + 1) vs result m =
      match body (m.turn outer letter value) with
      | some (.done r, m') => iterate limit letter body room next (result.append r) m'
      | some (o, m') => some (o.after result, m')
      | none => none := by
  have hturn := bindLoop_eq_turn hloops letter value
  rw [iterate.eq_def]
  rcases hrun : body (m.turn outer letter value) with _ | ⟨o, m'⟩
  · simp only [hnext, hturn, hrun]
  · cases o <;> simp only [hnext, hturn, hrun]

/-- The engine goes over a row of turns. The body leaves the loops as they are. -/
theorem iterate_turns (hkeeps : ∀ m r m', body m = some (.done r, m') → m'.state.loops = m.state.loops)
    {values : List String} {rs : List Result} {last : Machine} (hturns : Turns body letter outer m values rs last)
    {vs rest : Loop.Values} (hyields : vs.Yields values rest) (hloops : m.state.loops.drop 1 = outer) (more : Nat)
    (result : Result) :
    last.state.loops.drop 1 = outer ∧ iterate limit letter body (values.length + more) vs result m =
      iterate limit letter body more rest (rs.foldl Result.append result) last := by
  induction hturns generalizing vs result with
  | none =>
    cases hyields
    simp [hloops]
  | @next m value r m' values rs last hrun _ ih =>
    cases hyields with
    | next head tail =>
      have hloops' : m'.state.loops.drop 1 = outer := by rw [hkeeps _ _ _ hrun]; rfl
      obtain ⟨hlast, hrest⟩ := ih tail hloops' (result.append r)
      refine ⟨hlast, ?_⟩
      rw [List.length_cons, Nat.add_right_comm, iterate_next head hloops, hrun]
      exact hrest

/-- A whole loop: the values that there is room for have their turns. -/
theorem iterate_looped (hkeeps : ∀ m r m', body m = some (.done r, m') → m'.state.loops = m.state.loops)
    {values : List String} {vs rest : Loop.Values} (hyields : vs.Yields values rest) (hle : values.length ≤ limit)
    (hroom : values.length < limit → rest.next? = none) (hloops : m.state.loops.drop 1 = outer) :
    Looped body letter outer limit rest.next?.isSome m values
      (iterate limit letter body limit vs ⟨"", "", m.state.status⟩ m) := by
  obtain ⟨rs, last, hturns⟩ | ⟨done, value, later, rs, last, rfl, hturns, hfirst⟩ :=
    Turns.all_or_first body letter outer m values
  · have hsplit : iterate limit letter body limit vs ⟨"", "", m.state.status⟩ m =
        iterate limit letter body (limit - values.length) rest
          (rs.foldl Result.append ⟨"", "", m.state.status⟩) last := by
      have hturn : iterate limit letter body (values.length + (limit - values.length)) vs _ m = _ :=
        (iterate_turns hkeeps hturns hyields hloops _ ⟨"", "", m.state.status⟩).2
      rwa [Nat.add_sub_cancel' hle] at hturn
    have hend : iterate limit letter body limit vs ⟨"", "", m.state.status⟩ m =
        some (.done (turnsResult limit rest.next?.isSome m.state.status rs), last) := by
      rw [hsplit, foldl_append_results]
      cases hnext : rest.next? with
      | none => simp [iterate, hnext, turnsResult]
      | some next =>
        have hfull : limit - values.length = 0 := by
          have hnot : ¬ values.length < limit := fun hlt => by simp [hroom hlt] at hnext
          omega
        simp [iterate, hnext, hfull, turnsResult]
    rw [hend]
    exact .finished hturns
  · obtain ⟨mid, next, hdone, hnext⟩ := hyields.split
    have hlength : done.length < limit := by
      rw [List.length_append, List.length_cons] at hle
      omega
    obtain ⟨hlast, hturn⟩ : _ ∧ iterate limit letter body (done.length + (limit - done.length)) vs _ m = _ :=
      iterate_turns hkeeps hturns hdone hloops _ ⟨"", "", m.state.status⟩
    obtain ⟨room, hroom⟩ : ∃ room, limit - done.length = room + 1 := ⟨limit - done.length - 1, by omega⟩
    have hstop : iterate limit letter body limit vs ⟨"", "", m.state.status⟩ m =
        match body (last.turn outer letter value) with
        | some (.done r, m') =>
          iterate limit letter body room next ((rs.foldl Result.append ⟨"", "", m.state.status⟩).append r) m'
        | some (o, m') => some (o.after (rs.foldl Result.append ⟨"", "", m.state.status⟩), m')
        | none => none := by
      rw [Nat.add_sub_cancel' (Nat.le_of_lt hlength), hroom, iterate_next hnext hlast] at hturn
      exact hturn
    rw [hstop]
    cases hrun : body (last.turn outer letter value) with
    | none => exact .endless hturns hrun
    | some ended =>
      obtain ⟨o, m'⟩ := ended
      cases o with
      | done r => exact absurd hrun (hfirst r m')
      | raised signal out err =>
        simp only [foldl_append_results, String.empty_append]
        exact .raised hturns hrun
      | crashed why => exact .crashed hturns hrun

end

/-! ## Loops over items and numbers -/

/-- The items of the set of a loop, in which the letters of the loops around it are filled in. -/
def LoopHead.filledItems (head : LoopHead) (m : Machine) : List String :=
  Parser.setItems (Expansion.fillLoopVars m.host.files m.state.cwd m.state.loops head.rawSet)

/-- The values stand in the set: the loop counts, or its items are no patterns for files or directories. -/
def LoopHead.IsListed (head : LoopHead) (items : List String) : Prop :=
  head.kind = .range ∨
    ((head.kind = .items ∨ head.kind = .directories) ∧ ∀ item ∈ items, Wildcard.hasWildcards item = false)

/-- Producing such values changes nothing and has no complaint. -/
theorem loopValues_of_isListed (e : Engine) (again : Again) {head : LoopHead} {m : Machine}
    (h : head.IsListed (head.filledItems m)) {value? : Nat → Option String}
    (hvalues : head.values (head.filledItems m) = .ok value?) :
    ∃ vs, e.loopValues again head m = some (.ok (vs, ""), m) ∧ ∀ k, vs.nth? k = (value? k).map ([·]) := by
  obtain hrange | ⟨hkind, hplain⟩ := h
  · simp only [LoopHead.values, hrange, Except.bind_eq_ok_iff] at hvalues
    obtain ⟨start, hstart, step, hstep, stop, hstop, heq⟩ := hvalues
    cases heq
    have hread : Loop.rangeOf (head.filledItems m) = .ok (.ofBounds start step stop) :=
      Loop.rangeOf_eq_ok_iff.mpr ⟨start, step, stop, hstart, hstep, hstop, rfl⟩
    refine ⟨.range (.ofBounds start step stop), ?_, fun k => Loop.nth?_rangeOf hstart hstop k⟩
    rw [LoopHead.filledItems] at hread
    simp only [Engine.loopValues, hrange, hread]
  · obtain rfl : (fun k => (head.filledItems m)[k]?) = value? := by
      obtain hkind | hkind := hkind <;> simpa only [LoopHead.values, hkind, Except.ok.injEq] using hvalues
    refine ⟨.ofItems (head.filledItems m), ?_, fun k => Loop.Values.nth?_list _ k⟩
    obtain hkind | hkind := hkind <;> rw [Engine.loopValues] <;> simp only [hkind]
    · rw [← LoopHead.filledItems, Loop.itemValues_of_plain _ _ _ _ hplain]
    · rw [← LoopHead.filledItems, Loop.itemValues_of_plain _ _ _ _ hplain]

/-- Only reading the operands of a range breaks off. -/
theorem loopValues_of_values_eq_error (e : Engine) (again : Again) {head : LoopHead} {m : Machine} {why : Crash}
    (h : head.values (head.filledItems m) = .error why) :
    head.kind = .range ∧ e.loopValues again head m = some (.error (.crashed why), m) := by
  obtain ⟨hrange, hread⟩ := LoopHead.values_eq_error_iff_rangeOf.mp h
  rw [LoopHead.filledItems] at hread
  refine ⟨hrange, ?_⟩
  simp only [Engine.loopValues, hrange, hread]

/-- An operand that takes a second minus sign to negate the least number of 64 bits. -/
def Loop.Overflows (text : String) : Prop :=
  ∃ cs, text.toList = '-' :: cs ∧ Numeral.Magnitude .minus cs (-9223372036854775808)

theorem Loop.operand_eq_error_iff {items : List String} {k : Nat} {why : Crash} :
    operand items k = .error why ↔ why = .overflow ∧ ∃ text ∈ items[k]?, Overflows text := by
  cases hitem : items[k]? with
  | none => simp [operand, hitem]
  | some text =>
    rw [operand, hitem]
    dsimp only
    rw [Except.map_eq_error_iff, Numeral.parse32_eq_error_iff]
    simp [Overflows]

/-- Which sets have no values: those of a range with such an operand. -/
theorem LoopHead.values_eq_error_iff {head : LoopHead} {items : List String} {why : Crash} :
    head.values items = .error why ↔ head.kind = .range ∧ why = .overflow ∧
      ∃ k < 3, ∃ text ∈ items[k]?, Loop.Overflows text := by
  have hread (k : Nat) : (∃ n, Loop.operand items k = .ok n) ↔ ¬ ∃ text ∈ items[k]?, Loop.Overflows text := by
    have herror : Loop.operand items k = .error .overflow ↔ _ := Loop.operand_eq_error_iff
    cases hoperand : Loop.operand items k with
    | ok n => simpa [hoperand] using herror
    | error why =>
      have hoverflows := (Loop.operand_eq_error_iff.mp hoperand).2
      simpa using hoverflows
  have hthree : (∃ k < 3, ∃ text ∈ items[k]?, Loop.Overflows text) ↔ (∃ text ∈ items[0]?, Loop.Overflows text) ∨
      (∃ text ∈ items[1]?, Loop.Overflows text) ∨ ∃ text ∈ items[2]?, Loop.Overflows text := by
    constructor
    · rintro ⟨k, hk, h⟩
      obtain rfl | rfl | rfl : k = 0 ∨ k = 1 ∨ k = 2 := by omega
      · exact .inl h
      · exact .inr (.inl h)
      · exact .inr (.inr h)
    · rintro (h | h | h)
      · exact ⟨0, by decide, h⟩
      · exact ⟨1, by decide, h⟩
      · exact ⟨2, by decide, h⟩
  rw [LoopHead.values_eq_error_iff_rangeOf, Loop.rangeOf_eq_error_iff, hthree]
  simp only [Loop.operand_eq_error_iff, hread]
  generalize (∃ text ∈ items[0]?, Loop.Overflows text) = first
  generalize (∃ text ∈ items[1]?, Loop.Overflows text) = second
  generalize (∃ text ∈ items[2]?, Loop.Overflows text) = third
  tauto

/-- The engine takes the values of the set, up to the limit. -/
theorem Engine.runLoop_looped (e : Engine) (levels : Nat) {head : LoopHead} (body : Command) (stdin : String)
    {m : Machine} (h : head.IsListed (head.filledItems m)) {value? : Nat → Option String}
    (hread : head.values (head.filledItems m) = .ok value?) :
    let turn := e.perform (levels + 1) (.command body) stdin
    ∃ values run, (∀ k, values[k]? = if k < e.limits.iterations then value? k else none) ∧
      Looped turn head.letter m.state.loops e.limits.iterations (value? e.limits.iterations).isSome
        (m.withState m.state.pushLoop) values run ∧
      e.runLoop (e.perform levels) head turn m =
        run.map fun (o, m') => (o, m'.withState (m'.state.popLoop m.state.phase)) := by
  intro turn
  obtain ⟨vs, hvalues, hnth⟩ := loopValues_of_isListed e (e.perform levels) h hread
  obtain ⟨values, rest, hyields, hget, hle, hmore, hroom⟩ := Loop.Values.exists_yields hnth e.limits.iterations
  have hkeeps : ∀ m r m', turn m = some (.done r, m') → m'.state.loops = m.state.loops := by
    intro m r m' hrun
    have hkept : Kept m.state (.status r.status) m'.state :=
      e.perform_leaves (levels + 1) (.command body) stdin m _ m' hrun
    exact hkept.loops
  have hleft : rest.next?.isSome = (value? e.limits.iterations).isSome := by
    obtain hlt | heq := Nat.lt_or_eq_of_le hle
    · obtain ⟨hnone, hend⟩ := hroom hlt
      rw [hnone, show value? e.limits.iterations = none from hend]
      rfl
    · rw [hmore, heq]
  have hloop : Looped turn head.letter m.state.loops e.limits.iterations rest.next?.isSome
      (m.withState m.state.pushLoop) values _ :=
    iterate_looped hkeeps hyields hle (fun hlt => (hroom hlt).1) rfl
  rw [hleft] at hloop
  refine ⟨values, _, hget, hloop, ?_⟩
  have hstatus : (m.withState m.state.pushLoop).state.status = m.state.status := m.state.enterPhase_status _
  rw [Engine.runLoop, hvalues, hstatus]

/-- **The body of a loop has a turn for each value, in order, and never more turns than the limit.** For a loop whose
values stand in its set, take the values of the turns below the limit. They have their turns one after another, each
in the machine that the one before left, with the letter of the loop bound to the value in front of the loops
outside. The loop gives the outputs of the turns in that order, and the status of the last one; without a value the
status stays as it was, and if there is a value for one turn more, the loop complains and its status is 1. If a turn
ends with a signal, the outputs of the turns before go in front of what it carries, and no turn follows. The loop
ends if its turns do. A range one of whose operands cannot be read has no turns: the loop breaks off. -/
theorem Engine.loop_takes_turns (e : Engine) (levels : Nat) (head : LoopHead) (body : Command) (stdin : String)
    (m : Machine) (h : head.IsListed (head.filledItems m)) :
    let turn := e.perform (levels + 1) (.command body) stdin
    let items := head.filledItems m
    (∀ value?, head.values items = .ok value? →
      ∃ values run, (∀ k, values[k]? = if k < e.limits.iterations then value? k else none) ∧
        Looped turn head.letter m.state.loops e.limits.iterations (value? e.limits.iterations).isSome
          (m.withState m.state.pushLoop) values run ∧
        e.runLoop (e.perform levels) head turn m =
          run.map fun (o, m') => (o, m'.withState (m'.state.popLoop m.state.phase))) ∧
    ∀ why, head.values items = .error why →
      e.runLoop (e.perform levels) head turn m = some (.crashed why, m) ∧ why = .overflow ∧ head.kind = .range ∧
        ∃ k < 3, ∃ text ∈ items[k]?, Loop.Overflows text := by
  intro turn items
  refine ⟨fun value? hread => e.runLoop_looped levels body stdin h hread, fun why hwhy => ?_⟩
  obtain ⟨hrange, rfl, hoverflows⟩ := LoopHead.values_eq_error_iff.mp hwhy
  refine ⟨?_, rfl, hrange, hoverflows⟩
  rw [Engine.runLoop, (loopValues_of_values_eq_error e (e.perform levels) hwhy).2]

/-- A range that does not move, in an engine with room for two turns. -/
theorem Engine.loop_takes_turns_standing :
    let e : Engine := { Engine.bare with limits := { Limits.standard with iterations := 2 } }
    let head : LoopHead := ⟨'i', .range, ["7", "0", "7"], "7,0,7"⟩
    let body : Command := .simple ⟨"echo", ["%i"], " %i", []⟩
    head.IsListed (head.filledItems .inScript) ∧ ∃ run,
      Looped (e.perform 1 (.command body) "") 'i' [] 2 true (Machine.inScript.withState Machine.inScript.state.pushLoop)
        ["7", "7"] run ∧
      run.map Prod.fst = some (.done ⟨"7\n7\n", "FOR: too many iterations (limit 2)\n", 1⟩) := by
  intro e head body
  have hlisted : head.IsListed (head.filledItems .inScript) := .inl rfl
  have hrun : (e.runLoop (e.perform 0) head (e.perform 1 (.command body) "") .inScript).map Prod.fst =
      some (.done ⟨"7\n7\n", "FOR: too many iterations (limit 2)\n", 1⟩) := by decide +kernel
  have hoperands : ∀ k < 3, Loop.operand (head.filledItems .inScript) k = .ok ([7, 0, 7].getD k 0) := by decide +kernel
  have hread : head.values (head.filledItems .inScript) = .ok fun k => (Loop.counted? 7 0 7 k).map toString := by
    have hstart := hoperands 0 (by decide)
    have hstep := hoperands 1 (by decide)
    have hstop := hoperands 2 (by decide)
    simp only [LoopHead.values, head] at hstart hstep hstop ⊢
    rw [hstart, hstep, hstop]
    rfl
  obtain ⟨values, run, hvalues, hlooped, hend⟩ := (e.loop_takes_turns 0 head body "" .inScript hlisted).1 _ hread
  have htwo : values = ["7", "7"] := by
    refine List.ext_getElem? fun k => ?_
    rw [hvalues]
    rcases k with _ | _ | k
    · decide +kernel
    · decide +kernel
    · exact if_neg (show ¬ k + 2 < 2 by omega)
  have hmore : ((Loop.counted? 7 0 7 2).map toString).isSome = true := by decide +kernel
  rw [hend, Option.map_map] at hrun
  refine ⟨hlisted, run, ?_, hrun⟩
  rw [htwo] at hlooped
  exact hmore ▸ hlooped

/-- An operand that is no constant does not count as zero if it breaks the reader off: the loop has no turns. -/
theorem Engine.loop_breaks_off_at_operand :
    let head : LoopHead := ⟨'i', .range, ["--9223372036854775808", "1", "2"], "--9223372036854775808,1,2"⟩
    let body : Command := .simple ⟨"echo", ["%i"], " %i", []⟩
    (Engine.bare.runLoop (Engine.bare.perform 0) head (Engine.bare.perform 1 (.command body) "") .inScript).map
        Prod.fst = some (.crashed .overflow) ∧
      ∀ v, ¬ Numeral.Constant .none "--9223372036854775808" v := by
  refine ⟨by decide +kernel, fun v hv => ?_⟩
  exact hv.hasSecondSign_iff.mp (by decide) rfl

end BatchShell
