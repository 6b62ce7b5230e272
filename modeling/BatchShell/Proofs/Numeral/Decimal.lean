import BatchShell.Numeral
import BatchShell.Text.Blank
import Mathlib.Algebra.Order.Ring.Int

/-!
# Numbers written down

A number is written down in decimal, with a minus sign if it is negative.

* `parse32_toString`, `decimal64?_toString`, `natural?_toDigits`: a number that was written down reads back, as a
  constant of 32 bits, as a decimal of 64 bits and as an unsigned decimal.
* `trim_toString`, `isBlank_of_isDigit`: there is no white space in it.
-/
namespace BatchShell.Numeral

/-- The digits of a number, after those that gave `value`. -/
theorem digitsFrom?_append (base value : Nat) (cs ds : List Char) :
    digitsFrom? base value (cs ++ ds) = (digitsFrom? base value cs).bind fun n => digitsFrom? base n ds := by
  induction cs generalizing value with
  | nil => rfl
  | cons c cs ih =>
    rw [List.cons_append, digitsFrom?, digitsFrom?]
    split
    · exact ih _
    · rfl

theorem digitValue_digitChar {d : Nat} (h : d < 10) : digitValue (Nat.digitChar d) = d := by
  have hall : ∀ d : Fin 10, digitValue (Nat.digitChar d) = d := by decide
  exact hall ⟨d, h⟩

theorem digitsFrom?_digitChar (value : Nat) {d : Nat} (h : d < 10) :
    digitsFrom? 10 value [Nat.digitChar d] = some (value * 10 + d) := by
  rw [digitsFrom?, digitValue_digitChar h, if_pos h, digitsFrom?]

theorem digitsFrom?_toDigits (n : Nat) : digitsFrom? 10 0 (Nat.toDigits 10 n) = some n := by
  induction n using Nat.strong_induction_on with
  | _ n ih =>
    by_cases h : n < 10
    · rw [Nat.toDigits_of_lt_base h, digitsFrom?_digitChar 0 h, Nat.zero_mul, Nat.zero_add]
    · have hlast : n % 10 < 10 := Nat.mod_lt n (by decide)
      rw [Nat.toDigits_of_base_le (by decide) (by omega), digitsFrom?_append, ih (n / 10) (by omega),
        Option.bind_some, digitsFrom?_digitChar _ hlast]
      congr 1
      omega

/-- No number but zero starts with a zero. -/
theorem toDigits_cons {n : Nat} (h : 0 < n) : ∃ d ds, Nat.toDigits 10 n = Nat.digitChar d :: ds ∧ 0 < d ∧ d < 10 := by
  induction n using Nat.strong_induction_on with
  | _ n ih =>
    by_cases hsmall : n < 10
    · exact ⟨n, [], Nat.toDigits_of_lt_base hsmall, h, hsmall⟩
    · obtain ⟨d, ds, hdigits, hd⟩ := ih (n / 10) (by omega) (by omega)
      refine ⟨d, ds ++ [Nat.digitChar (n % 10)], ?_, hd⟩
      rw [Nat.toDigits_of_base_le (by decide) (by omega), hdigits]
      rfl

theorem not_mem_toDigits {n : Nat} {c : Char} (h : c.isDigit = false) : c ∉ Nat.toDigits 10 n := by
  intro hc
  rw [Nat.isDigit_of_mem_toDigits (by decide) (by decide) hc] at h
  cases h

theorem digits?_toDigits (n : Nat) : digits? 10 (Nat.toDigits 10 n) = some n := by
  rw [digits?, if_neg (by simp [Nat.toDigits_ne_nil]), digitsFrom?_toDigits]

/-- **An unsigned number that was written down reads back.** -/
theorem natural?_toDigits {n : Nat} (h : n < UInt64.size) :
    natural? (String.ofList (Nat.toDigits 10 n)) = some n := by
  have hsign : '+' ∉ Nat.toDigits 10 n := not_mem_toDigits rfl
  unfold natural?
  rw [String.toList_ofList]
  split
  · rename_i heq
    exact absurd (heq ▸ List.mem_cons_self) hsign
  · rw [digits?_toDigits, Option.bind_some, if_pos h]

theorem signed?_toDigits (n : Nat) : signed? 10 (Nat.toDigits 10 n) = some (n : Int) := by
  have hplus : '+' ∉ Nat.toDigits 10 n := not_mem_toDigits rfl
  have hminus : '-' ∉ Nat.toDigits 10 n := not_mem_toDigits rfl
  unfold signed?
  split
  · rename_i heq
    exact absurd (heq ▸ List.mem_cons_self) hplus
  · rename_i heq
    exact absurd (heq ▸ List.mem_cons_self) hminus
  · rw [digits?_toDigits]
    rfl

theorem magnitude?_toDigits (n : Nat) : magnitude? (Nat.toDigits 10 n) = some (n : Int) := by
  rcases Nat.eq_zero_or_pos n with rfl | hpos
  · rfl
  · obtain ⟨d, ds, hdigits, hd⟩ := toDigits_cons hpos
    have hzero : Nat.digitChar d ≠ '0' := by
      have hall : ∀ d : Fin 10, 0 < d.val → Nat.digitChar d ≠ '0' := by decide
      exact hall ⟨d, hd.2⟩ hd.1
    rw [← signed?_toDigits, hdigits]
    unfold magnitude?
    split
    · rename_i heq
      exact absurd (List.cons.inj heq).1 hzero
    · rename_i heq
      exact absurd (List.cons.inj heq).1 hzero
    · rename_i heq
      exact absurd (List.cons.inj heq).1 hzero
    · rfl

/-- The characters of a number that is written down, with its sign. -/
theorem toList_repr (n : Int) : n.repr.toList =
    if 0 ≤ n then Nat.toDigits 10 n.toNat else '-' :: Nat.toDigits 10 (-n).toNat := by
  rw [Int.repr_eq_if]
  split
  · rw [Nat.repr_eq_ofList_toDigits, String.toList_ofList]
  · simp [Nat.repr_eq_ofList_toDigits]

theorem toList_toString (v : Int32) : (toString v).toList =
    if 0 ≤ v.toInt then Nat.toDigits 10 v.toInt.toNat else '-' :: Nat.toDigits 10 (-v.toInt).toNat :=
  toList_repr v.toInt

theorem signed?_repr (n : Int) : signed? 10 n.repr.toList = some n := by
  rw [toList_repr]
  split
  · rename_i hnonneg
    rw [signed?_toDigits, Int.toNat_of_nonneg hnonneg]
  · rename_i hneg
    rw [signed?, digits?_toDigits, Option.map_some]
    simp only [Int.ofNat_eq_natCast, Int.toNat_of_nonneg (show 0 ≤ -n by omega), Int.neg_neg]

theorem decimal64?_toString (v : Int64) : decimal64? (toString v) = some v.toInt := by
  have hlow := Int64.le_toInt v
  have hhigh := Int64.toInt_lt v
  have hfits : fits64 v.toInt = true := by
    simp only [fits64, Bool.and_eq_true, decide_eq_true_eq]
    omega
  have hread : signed? 10 (toString v).toList = some v.toInt := signed?_repr v.toInt
  rw [decimal64?, hread, Option.bind_some, if_pos hfits]

/-- **A number that was written down reads back.** -/
theorem parse32_toString (v : Int32) : parse32 (toString v) = .ok (some v) := by
  have hlow := Int32.le_toInt v
  have hhigh := Int32.toInt_lt v
  have hword {n : Int} (h : n.natAbs ≤ 2147483648) : fits64 n = true := by
    simp only [fits64, Bool.and_eq_true, decide_eq_true_eq]
    omega
  have hconstant : constant (toString v).toList = .ok (some v.toInt) := by
    rw [toList_toString]
    split
    · rename_i hnonneg
      have hminus : '-' ∉ Nat.toDigits 10 v.toInt.toNat := not_mem_toDigits rfl
      unfold constant
      split
      · rename_i heq
        exact absurd (heq ▸ List.mem_cons_self) hminus
      · rw [magnitude?_toDigits, Int.toNat_of_nonneg hnonneg, Option.filter_some, if_pos (hword (by omega))]
    · rename_i hneg
      rw [constant, magnitude?_toDigits, Int.toNat_of_nonneg (by omega), Option.filter_some,
        if_pos (hword (by omega))]
      dsimp only
      rw [Int.neg_neg, if_pos (hword (by omega))]
  have hfits : fits32 v.toInt = true := by
    simp only [fits32, Bool.and_eq_true, decide_eq_true_eq]
    omega
  rw [parse32, hconstant, Except.map, Option.filter_some, if_pos hfits, Option.map_some, Int32.ofInt_toInt]

/-! ## White space -/

theorem isBlank_of_isDigit {c : Char} (h : c.isDigit = true) : Text.isBlank c = false := by
  simp only [Char.isDigit, Bool.and_eq_true, decide_eq_true_eq, UInt32.le_iff_toNat_le] at h
  have hlow : 48 ≤ c.toNat := h.1
  have hhigh : c.toNat ≤ 57 := h.2
  simp only [Text.isBlank, Bool.or_eq_false_iff, Bool.and_eq_false_iff, decide_eq_false_iff_not, beq_eq_false_iff_ne]
  omega

theorem isBlank_of_mem_toDigits {n : Nat} {c : Char} (h : c ∈ Nat.toDigits 10 n) : Text.isBlank c = false :=
  isBlank_of_isDigit (Nat.isDigit_of_mem_toDigits (by decide) (by decide) h)

/-- There is nothing to trim in a text without white space. -/
theorem trim_eq_self {text : String} (h : ∀ c ∈ text.toList, Text.isBlank c = false) : Text.trim text = text := by
  have hdrop : ∀ cs : List Char, (∀ c ∈ cs, Text.isBlank c = false) → cs.dropWhile Text.isBlank = cs := by
    intro cs hcs
    cases cs with
    | nil => rfl
    | cons c cs => rw [List.dropWhile_cons_of_neg (by simp [hcs c List.mem_cons_self])]
  rw [Text.trim, Text.trimStart, Text.dropStart, hdrop _ h, String.ofList_toList, Text.trimEnd, Text.dropEnd,
    hdrop _ (by simpa using h), List.reverse_reverse, String.ofList_toList]

/-- There is no white space around a number. -/
theorem trim_toString (v : Int32) : Text.trim (toString v) = toString v := by
  apply trim_eq_self
  rw [toList_toString]
  intro c hc
  split at hc
  · exact isBlank_of_mem_toDigits hc
  · obtain rfl | hc := List.mem_cons.mp hc
    · decide
    · exact isBlank_of_mem_toDigits hc

end BatchShell.Numeral
