import BatchShell.Loop.Values
import BatchShell.Proofs.Loop.Ranges

/-!
# The values of a loop by their number

A loop takes its values one after another, and a range counts them out as it goes. Here they are given by their
number: `LoopHead.values` gives the value of turn `k`, an item of the set or `start + k * step` as long as that does
not pass the end (`nth?_rangeOf`).

`Values.Yields` says which values a loop has taken and what is left; `Values.exists_yields` gives the values that a
bounded number of turns takes.
-/
namespace BatchShell

namespace Loop

namespace Values

/-- The values of turn `k`, counted from 0. -/
def nth? : Values → Nat → Option (List String)
  | vs, 0 => vs.next?.map (·.1)
  | vs, k + 1 => vs.next?.bind fun next => next.2.nth? k

/-- Turns with one value each have taken these values, and `rest` is left. -/
inductive Yields : Values → List String → Values → Prop where
  | none {vs} : Yields vs [] vs
  | next {vs value rest values last} (head : vs.next? = some ([value], rest)) (tail : Yields rest values last) :
    Yields vs (value :: values) last

/-- The values that at most `count` turns take, if `value?` gives one value for each turn. -/
theorem exists_yields {vs : Values} {value? : Nat → Option String}
    (h : ∀ k, vs.nth? k = (value? k).map ([·])) (count : Nat) :
    ∃ values rest, vs.Yields values rest ∧ (∀ k, values[k]? = if k < count then value? k else Option.none) ∧
      values.length ≤ count ∧ rest.next?.isSome = (value? values.length).isSome ∧
      (values.length < count → rest.next? = Option.none ∧ value? count = Option.none) := by
  induction count generalizing vs value? with
  | zero =>
    have hfirst : (vs.next?.map (·.1)).isSome = ((value? 0).map ([·])).isSome := congrArg _ (h 0)
    simp only [Option.isSome_map] at hfirst
    exact ⟨[], vs, .none, by simp, Nat.le_refl _, hfirst, by simp⟩
  | succ count ih =>
    have hfirst : vs.next?.map (·.1) = (value? 0).map ([·]) := h 0
    cases hnext : vs.next? with
    | none =>
      have hnone (k : Nat) : value? k = Option.none := by
        have hk := h k
        cases k with
        | zero => simpa [nth?, hnext] using hk.symm
        | succ k => simpa [nth?, hnext] using hk.symm
      exact ⟨[], vs, .none, by simp [hnone], by simp, by simp [hnext, hnone], fun _ => ⟨hnext, hnone _⟩⟩
    | some next =>
      obtain ⟨first, rest⟩ := next
      rw [hnext] at hfirst
      obtain ⟨value, hvalue, rfl⟩ := Option.map_eq_some_iff.mp hfirst.symm
      have htail (k : Nat) : rest.nth? k = (value? (k + 1)).map ([·]) := by
        have hk := h (k + 1)
        rwa [nth?, hnext] at hk
      obtain ⟨values, last, hyields, hget, hle, hmore, hend⟩ := ih htail
      refine ⟨value :: values, last, .next hnext hyields, fun k => ?_, Nat.succ_le_succ hle, hmore, fun hlt => ?_⟩
      · cases k with
        | zero => simp [hvalue]
        | succ k => simp [hget]
      · exact hend (Nat.lt_of_succ_lt_succ hlt)

theorem nth?_list (items : List String) (k : Nat) : (ofItems items).nth? k = items[k]?.map ([·]) := by
  induction k generalizing items with
  | zero => cases items <;> rfl
  | succ k ih =>
    cases items with
    | nil => rfl
    | cons item items => simpa [nth?, ofItems, next?] using ih items

/-- A range gives one value for each of its items. -/
theorem nth?_range (r : Range) (k : Nat) : (range r).nth? k = ((r.item? k).map toString).map ([·]) := by
  induction k generalizing r with
  | zero =>
    rw [nth?, next?, Range.item?]
    cases r.next? <;> rfl
  | succ k ih =>
    rw [nth?, next?, Range.item?]
    cases r.next? with
    | none => rfl
    | some next => exact ih next.2

end Values

/-! ## Sets -/

theorem inWord_operand {items : List String} {n : Nat} {number : Int} (h : operand items n = .ok number) :
    Range.inWord number = true := by
  have hword (value : Option Int32) : Range.inWord ((value.map Int32.toInt).getD 0) = true := by
    cases value with
    | none => decide
    | some value =>
      have hlow := Int32.le_toInt value
      have hhigh := Int32.toInt_lt value
      simp only [Range.inWord, Option.map_some, Option.getD_some, Bool.and_eq_true, decide_eq_true_eq]
      omega
  unfold operand at h
  split at h
  · cases h
    decide
  · obtain ⟨value, -, rfl⟩ := Except.map_eq_ok_iff.mp h
    exact hword value

/-- A range is made of its operands, which are read in turn. -/
theorem rangeOf_eq_ok_iff {items : List String} {range : Range} : rangeOf items = .ok range ↔
    ∃ start step stop, operand items 0 = .ok start ∧ operand items 1 = .ok step ∧ operand items 2 = .ok stop ∧
      range = .ofBounds start step stop := by
  simp only [rangeOf, Except.bind_eq_ok_iff, Except.ok.injEq, eq_comm (b := range)]
  exact ⟨fun ⟨start, hstart, step, hstep, stop, hstop, heq⟩ => ⟨start, step, stop, hstart, hstep, hstop, heq⟩,
    fun ⟨start, step, stop, hstart, hstep, hstop, heq⟩ => ⟨start, hstart, step, hstep, stop, hstop, heq⟩⟩

theorem rangeOf_eq_error_iff {items : List String} {why : Crash} : rangeOf items = .error why ↔
    operand items 0 = .error why ∨ (∃ start, operand items 0 = .ok start) ∧ (operand items 1 = .error why ∨
      (∃ step, operand items 1 = .ok step) ∧ operand items 2 = .error why) := by
  rw [rangeOf]
  cases operand items 0 <;> cases operand items 1 <;> cases operand items 2 <;> simp

theorem nth?_rangeOf {items : List String} {start step stop : Int} (hstart : operand items 0 = .ok start)
    (hstop : operand items 2 = .ok stop) (k : Nat) : (Values.range (.ofBounds start step stop)).nth? k =
      ((counted? start step stop k).map toString).map ([·]) := by
  rw [← Range.item?_ofBounds (inWord_operand hstart) (inWord_operand hstop)]
  exact Values.nth?_range _ k

theorem itemValues_of_plain (glob : Wildcard.Glob) (files : FileTree) (cwd : String) (kind : Wildcard.EntryKind)
    {items : List String} (h : ∀ item ∈ items, Wildcard.hasWildcards item = false) :
    itemValues glob files cwd kind items = items := by
  induction items with
  | nil => rfl
  | cons item items ih =>
    obtain ⟨hitem, hitems⟩ := List.forall_mem_cons.mp h
    have hrest : itemValues glob files cwd kind items = items := ih hitems
    rw [itemValues] at hrest ⊢
    simp [hitem, hrest]

end Loop

/-- The values of a loop over the items of a set by the number of their turn, counted from 0: the item with that
number, or the number that the operands of a range lead to. -/
def LoopHead.values (head : LoopHead) (items : List String) : Except Crash (Nat → Option String) :=
  match head.kind with
  | .range => do
    let start ← Loop.operand items 0
    let step ← Loop.operand items 1
    let stop ← Loop.operand items 2
    .ok fun k => (Loop.counted? start step stop k).map toString
  | _ => .ok fun k => items[k]?

/-- A loop whose values stand in its set has none if its range cannot be read. -/
theorem LoopHead.values_eq_error_iff_rangeOf {head : LoopHead} {items : List String} {why : Crash} :
    head.values items = .error why ↔ head.kind = .range ∧ Loop.rangeOf items = .error why := by
  cases hkind : head.kind with
  | range =>
    simp only [values, hkind, Loop.rangeOf, true_and]
    cases Loop.operand items 0 <;> cases Loop.operand items 1 <;> cases Loop.operand items 2 <;>
      simp [bind, Except.bind]
  | _ => simp [values, hkind]

end BatchShell
