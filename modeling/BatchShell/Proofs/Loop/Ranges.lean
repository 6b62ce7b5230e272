import BatchShell.Loop.Range

/-!
# Ranges by the number of the item

A range knows its next item only, and a sum beyond 64 bits ends it. Here its items are given by their number:
`counted?` is `start + k * step` as long as that does not pass the end, and nothing is said of 64 bits.

* `Range.item?` is the item with number `k`, `Range.getElem?_take` finds it among the items taken together, and
  `Range.item?_take_snd` in what remains after them.
* `Range.item?_comingTo`: the items of a range are the numbers that are counted. A sum beyond 64 bits is beyond the
  end too, so the range has stopped before.
* `Range.items_exact`: this for all operands of 64 bits, with the ranges that are empty and those without end.
-/
namespace BatchShell.Loop

variable {start step stop value n : Int} {k : Nat}

/-- The number `k` of those counted from `start` in steps of `step`, if it does not pass `stop`. -/
def counted? (start step stop : Int) (k : Nat) : Option Int :=
  let value := start + k * step
  if (0 ≤ step ∧ value ≤ stop) ∨ (step < 0 ∧ stop ≤ value) then some value else none

theorem counted?_eq_some_iff : counted? start step stop k = some n ↔
    n = start + k * step ∧ (0 ≤ step → n ≤ stop) ∧ (step < 0 → stop ≤ n) := by
  simp only [counted?, Option.ite_none_right_eq_some, Option.some.injEq]
  constructor
  · rintro ⟨hin, rfl⟩
    refine ⟨rfl, ?_, ?_⟩ <;> omega
  · rintro ⟨rfl, hup, hdown⟩
    refine ⟨?_, rfl⟩
    omega

theorem counted?_zero : counted? start step stop 0 =
    if (0 ≤ step ∧ start ≤ stop) ∨ (step < 0 ∧ stop ≤ start) then some start else none := by
  simp [counted?]

/-- Counting goes on from the next number. -/
theorem counted?_succ (start step stop : Int) (k : Nat) :
    counted? start step stop (k + 1) = counted? (start + step) step stop k := by
  have hvalue : start + ((k + 1 : Nat) : Int) * step = start + step + k * step := by
    rw [Int.natCast_add, Int.natCast_one, Int.add_mul, Int.one_mul]
    omega
  simp only [counted?, hvalue]

/-- What is beyond the end stays beyond it. -/
theorem counted?_eq_none {start step stop : Int} (h : counted? start step stop 0 = none) (k : Nat) :
    counted? start step stop k = none := by
  have hdistance : 0 ≤ step → 0 ≤ (k : Int) * step := fun hstep => Int.mul_nonneg (Int.natCast_nonneg k) hstep
  have hback : step < 0 → (k : Int) * step ≤ 0 := fun hstep =>
    Int.mul_nonpos_of_nonneg_of_nonpos (Int.natCast_nonneg k) (Int.le_of_lt hstep)
  simp only [counted?, Int.natCast_zero, Int.zero_mul, Int.add_zero, ite_eq_right_iff, reduceCtorEq, imp_false,
    not_or, not_and] at h ⊢
  omega

/-- Only a range that stands still before its end is counted for ever. -/
theorem counted?_endless_iff : (∀ k, (counted? start step stop k).isSome) ↔ step = 0 ∧ start ≤ stop := by
  constructor
  · intro h
    -- a range that moves has passed its end after as many steps as the two are apart
    obtain ⟨n, hn⟩ := Option.isSome_iff_exists.mp (h (stop - start).natAbs.succ)
    obtain ⟨first, hfirst⟩ := Option.isSome_iff_exists.mp (h 0)
    rw [counted?_eq_some_iff] at hn hfirst
    have hup : 1 ≤ step → (((stop - start).natAbs.succ : Nat) : Int) * 1 ≤ (stop - start).natAbs.succ * step :=
      fun hstep => Int.mul_le_mul_of_nonneg_left hstep (Int.natCast_nonneg _)
    have hdown : step ≤ -1 → (((stop - start).natAbs.succ : Nat) : Int) * step ≤ (stop - start).natAbs.succ * -1 :=
      fun hstep => Int.mul_le_mul_of_nonneg_left hstep (Int.natCast_nonneg _)
    omega
  · rintro ⟨rfl, hle⟩ k
    simp [counted?, hle]

namespace Range

/-- The item with number `k`, counted from 0. -/
def item? : Range → Nat → Option Int
  | r, 0 => r.next?.map (·.1)
  | r, k + 1 => r.next?.bind fun next => next.2.item? k

theorem item?_eq_none {r : Range} (h : r.next? = none) (k : Nat) : r.item? k = none := by
  cases k <;> simp [item?, h]

/-- The items that are taken together are those with the first numbers. -/
theorem getElem?_take (r : Range) (count k : Nat) :
    (r.take count).1[k]? = if k < count then r.item? k else none := by
  induction count generalizing r k with
  | zero => simp [take]
  | succ count ih =>
    rw [take]
    cases hnext : r.next? with
    | none => simp [item?_eq_none hnext]
    | some next =>
      cases k with
      | zero => simp [item?, hnext]
      | succ k => simp [item?, hnext, ih]

/-- The rest goes on with the number after the last one taken. -/
theorem item?_take_snd (r : Range) (count k : Nat) : (r.take count).2.item? k = r.item? (count + k) := by
  induction count generalizing r with
  | zero => simp [take]
  | succ count ih =>
    rw [take, Nat.succ_add]
    cases hnext : r.next? with
    | none => simp [item?_eq_none hnext]
    | some next => simp [item?, hnext, ih]

theorem isPast_eq_false {r : Range} {value : Int} :
    r.isPast value = false ↔ (0 ≤ r.step ∧ value ≤ r.stop) ∨ (r.step < 0 ∧ r.stop ≤ value) := by
  unfold isPast
  split <;> simp <;> omega

/-- The range that comes to `value` next, or has ended because that is beyond 64 bits. -/
def comingTo (value step stop : Int) : Range := ⟨if inWord value then some value else none, step, stop⟩

/-- One step of a range. Its values leave 64 bits only on the side to which it moves, and the end is there first. -/
theorem next?_comingTo (hstop : inWord stop = true) (hfrom : (0 ≤ step → -9223372036854775808 ≤ value) ∧
    (step < 0 → value ≤ 9223372036854775807)) : (comingTo value step stop).next? =
      (counted? value step stop 0).map fun _ => (value, comingTo (value + step) step stop) := by
  rw [counted?_zero]
  by_cases hin : (0 ≤ step ∧ value ≤ stop) ∨ (step < 0 ∧ stop ≤ value)
  · have hword : inWord value = true := by
      simp only [inWord, Bool.and_eq_true, decide_eq_true_eq] at hstop ⊢
      omega
    have hpast : isPast ⟨some value, step, stop⟩ value = false := isPast_eq_false.mpr hin
    simp [comingTo, next?, hword, hpast, hin]
  · have hpast : isPast ⟨some value, step, stop⟩ value = true := by
      rw [← Bool.not_eq_false, isPast_eq_false]
      exact hin
    cases hword : inWord value <;> simp [comingTo, next?, hword, hpast, hin]

/-- A range has the items that are counted. -/
theorem item?_comingTo (hstop : inWord stop = true) (hfrom : (0 ≤ step → -9223372036854775808 ≤ value) ∧
    (step < 0 → value ≤ 9223372036854775807)) (k : Nat) :
    (comingTo value step stop).item? k = counted? value step stop k := by
  induction k generalizing value with
  | zero =>
    rw [item?, next?_comingTo hstop hfrom, counted?_zero]
    split <;> rfl
  | succ k ih =>
    rw [item?, next?_comingTo hstop hfrom]
    cases hcount : counted? value step stop 0 with
    | none => simp [counted?_eq_none hcount]
    | some n =>
      rw [counted?_succ]
      apply ih
      omega

/-- A range between two numbers of 64 bits has the items that are counted. -/
theorem item?_ofBounds (hstart : inWord start = true) (hstop : inWord stop = true) (k : Nat) :
    (ofBounds start step stop).item? k = counted? start step stop k := by
  have hcoming : ofBounds start step stop = comingTo start step stop := by simp [ofBounds, comingTo, hstart]
  rw [hcoming]
  apply item?_comingTo hstop
  simp only [inWord, Bool.and_eq_true, decide_eq_true_eq] at hstart
  omega

theorem inWord_toInt (n : Int64) : inWord n.toInt = true := by
  have hlow := Int64.le_toInt n
  have hhigh := Int64.toInt_lt n
  simp only [inWord, Bool.and_eq_true, decide_eq_true_eq]
  omega

/-- **The items of a range.** For all operands of 64 bits the item with number `k` is `start + k * step` as long as
this does not pass the end, in numbers without bound, and there is none after that. So a range is empty when its step
leads away from the end, and without end only when it stands still before it. The items come out with these numbers
however many are taken at once, and none is lost between those taken and the rest. -/
theorem items_exact (start step stop : Int64) :
    let r := ofBounds start.toInt step.toInt stop.toInt
    (∀ k n, r.item? k = some n ↔ n = start.toInt + k * step.toInt ∧
      (0 ≤ step.toInt → n ≤ stop.toInt) ∧ (step.toInt < 0 → stop.toInt ≤ n)) ∧
      (r.next? = none ↔
        (0 ≤ step.toInt ∧ stop.toInt < start.toInt) ∨ (step.toInt < 0 ∧ start.toInt < stop.toInt)) ∧
      ((∀ k, (r.item? k).isSome) ↔ step.toInt = 0 ∧ start.toInt ≤ stop.toInt) ∧
      ∀ count k, (r.take count).1[k]? = (if k < count then r.item? k else none) ∧
        (r.take count).2.item? k = r.item? (count + k) := by
  intro r
  have hitem (k : Nat) : r.item? k = counted? start.toInt step.toInt stop.toInt k :=
    item?_ofBounds (inWord_toInt start) (inWord_toInt stop) k
  refine ⟨fun k n => ?_, ?_, ?_, fun count k => ⟨getElem?_take r count k, item?_take_snd r count k⟩⟩
  · rw [hitem, counted?_eq_some_iff]
  · have hfirst : r.next? = none ↔ r.item? 0 = none := by simp [item?]
    rw [hfirst, hitem, counted?_zero, ite_eq_right_iff]
    simp only [reduceCtorEq, imp_false]
    omega
  · simp only [hitem, counted?_endless_iff]

/-- The sum after the greatest number of 64 bits ends the range behind it. -/
example : (ofBounds 9223372036854775805 2 9223372036854775807).take 3 =
    ([9223372036854775805, 9223372036854775807], ⟨none, 2, 9223372036854775807⟩) := by decide

end Range

end BatchShell.Loop
