import BatchShell.Condition
import BatchShell.Arithmetic.Eval
import BatchShell.Proofs.Loop.Values
import Mathlib.Data.Nat.Digits.Defs

/-!
# Which texts are numbers

A constant is decimal, octal behind a `0` or hexadecimal behind `0x`, with a minus sign before it or without. That is
`Constant .none`. The reader takes a few texts more: behind the minus sign and the mark of the base it lets the digits
carry one more sign of their own, plus or minus, and such decimals may start with a zero.

* `parse32_eq_some_iff`: what the reader accepts, and the number it gives, over all texts.
* `parse32_eq_error_iff`: the reader works in 64 bits, and negating leaves them for one number only. It takes a second
  sign to write it.
* `Constant.hasSecondSign_iff`: a text is a constant of the plain form or has a second sign, never both.
* `constants_unless_second_sign`: what this means for the places that take a text for a number if it is one.
-/
namespace BatchShell.Numeral

/-! ## The grammar -/

/-- The digits of a base, capital and small. -/
def alphabet (base : Nat) : List Char :=
  let octal := ['0', '1', '2', '3', '4', '5', '6', '7']
  let decimal := octal ++ ['8', '9']
  if base = 8 then octal
  else if base = 10 then decimal
  else decimal ++ ['a', 'b', 'c', 'd', 'e', 'f', 'A', 'B', 'C', 'D', 'E', 'F']

/-- One or more digits of a base. -/
def AreDigits (base : Nat) (ds : List Char) : Prop := ds ≠ [] ∧ ∀ c ∈ ds, c ∈ alphabet base

/-- The number with the digits `ds`, of which the last one counts ones. -/
def valueOf (base : Nat) (ds : List Char) : Nat := Nat.ofDigits base (ds.reverse.map digitValue)

/-- The sign that digits carry themselves. -/
inductive OwnSign where
  | none
  | plus
  | minus
  deriving DecidableEq

namespace OwnSign

def chars : OwnSign → List Char
  | none => []
  | plus => ['+']
  | minus => ['-']

def apply : OwnSign → Nat → Int
  | none, n | plus, n => n
  | minus, n => -n

end OwnSign

/-- A constant behind its minus sign. Decimal digits without a sign of their own are a single zero or do not start with
one. -/
inductive Magnitude (sign : OwnSign) : List Char → Int → Prop where
  | decimal {ds} (digits : AreDigits 10 ds) (first : sign = .none → ds = ['0'] ∨ ds.head? ≠ some '0') :
    Magnitude sign (sign.chars ++ ds) (sign.apply (valueOf 10 ds))
  | hexadecimal {x ds} (mark : x = 'x' ∨ x = 'X') (digits : AreDigits 16 ds) :
    Magnitude sign ('0' :: x :: (sign.chars ++ ds)) (sign.apply (valueOf 16 ds))
  | octal {ds} (digits : AreDigits 8 ds) :
    Magnitude sign ('0' :: (sign.chars ++ ds)) (sign.apply (valueOf 8 ds))

/-- A constant of 32 bits, whose digits carry the given sign. -/
inductive Constant (sign : OwnSign) (text : String) (v : Int32) : Prop where
  | positive (plain : text.toList.head? ≠ some '-') (magnitude : Magnitude sign text.toList v.toInt)
  | negative {cs} (minus : text.toList = '-' :: cs) (magnitude : Magnitude sign cs (-v.toInt))

/-- A sign that is not the minus sign at the start. -/
def HasSecondSign (text : String) : Prop := '+' ∈ text.toList ∨ '-' ∈ text.toList.tail

instance : DecidablePred HasSecondSign :=
  fun text => inferInstanceAs (Decidable ('+' ∈ text.toList ∨ '-' ∈ text.toList.tail))

/-! ## Digits -/

variable {base : Nat} {cs ds : List Char} {text : String} {sign : OwnSign} {v : Int32}

/-- The bases that are read. -/
def IsBase (base : Nat) : Prop := base = 8 ∨ base = 10 ∨ base = 16

theorem digitValue_lt_iff (hbase : IsBase base) (c : Char) : digitValue c < base ↔ c ∈ alphabet base := by
  by_cases hsmall : c.toNat < 128
  · have hall : ∀ base ∈ [8, 10, 16], ∀ n : Fin 128,
        digitValue (Char.ofNat n.val) < base ↔ Char.ofNat n.val ∈ alphabet base := by decide +kernel
    have hc := hall base (by simpa [IsBase] using hbase) ⟨c.toNat, hsmall⟩
    rwa [Char.ofNat_toNat] at hc
  · have hvalue : digitValue c = 36 := by
      have hgreater (d : Char) (hd : d.toNat < 128) : ¬ c ≤ d := by
        rw [Char.le_def, UInt32.le_iff_toNat_le]
        show ¬ c.toNat ≤ d.toNat
        omega
      simp [digitValue, hgreater '9' (by decide), hgreater 'z' (by decide), hgreater 'Z' (by decide)]
    have halphabet : ∀ base ∈ [8, 10, 16], base ≤ 36 ∧ (alphabet base).all (·.toNat < 128) := by decide
    obtain ⟨hle, hsmaller⟩ := halphabet base (by simpa [IsBase] using hbase)
    rw [hvalue]
    exact iff_of_false (by omega) fun hmem => hsmall (of_decide_eq_true (List.all_eq_true.mp hsmaller c hmem))

/-- A digit is worth its place in the number. -/
theorem valueOf_cons (base : Nat) (c : Char) (ds : List Char) :
    valueOf base (c :: ds) = digitValue c * base ^ ds.length + valueOf base ds := by
  rw [valueOf, List.reverse_cons, List.map_append, Nat.ofDigits_append, List.length_map, List.length_reverse,
    List.map_singleton, Nat.ofDigits_singleton, valueOf, Nat.mul_comm, Nat.add_comm]

theorem digitsFrom?_eq_some_iff (hbase : IsBase base) {value n : Nat} : digitsFrom? base value cs = some n ↔
    (∀ c ∈ cs, c ∈ alphabet base) ∧ n = value * base ^ cs.length + valueOf base cs := by
  induction cs generalizing value with
  | nil => simp [digitsFrom?, valueOf, eq_comm]
  | cons c cs ih =>
    rw [digitsFrom?, List.forall_mem_cons, ← digitValue_lt_iff hbase c, valueOf_cons]
    by_cases hdigit : digitValue c < base
    · have hsum : (value * base + digitValue c) * base ^ cs.length + valueOf base cs =
          value * base ^ (c :: cs).length + (digitValue c * base ^ cs.length + valueOf base cs) := by
        rw [List.length_cons, Nat.pow_succ', Nat.add_mul, Nat.mul_assoc, Nat.add_assoc]
      rw [if_pos hdigit, ih, hsum]
      simp only [hdigit, true_and]
    · rw [if_neg hdigit]
      simp [hdigit]

theorem digits?_eq_some_iff (hbase : IsBase base) {n : Nat} :
    digits? base cs = some n ↔ AreDigits base cs ∧ n = valueOf base cs := by
  unfold digits? AreDigits
  cases cs with
  | nil => simp
  | cons c cs =>
    rw [List.isEmpty_cons, if_neg Bool.false_ne_true, digitsFrom?_eq_some_iff hbase, Nat.zero_mul, Nat.zero_add]
    simp

theorem map_digits?_eq_some_iff (hbase : IsBase base) {f : Nat → Int} {n : Int} :
    (digits? base cs).map f = some n ↔ AreDigits base cs ∧ n = f (valueOf base cs) := by
  rw [Option.map_eq_some_iff]
  constructor
  · rintro ⟨m, hm, rfl⟩
    obtain ⟨hdigits, rfl⟩ := (digits?_eq_some_iff hbase).mp hm
    exact ⟨hdigits, rfl⟩
  · rintro ⟨hdigits, rfl⟩
    exact ⟨_, (digits?_eq_some_iff hbase).mpr ⟨hdigits, rfl⟩, rfl⟩

/-- No digit is a sign or the mark of a base. -/
theorem AreDigits.ne (hbase : IsBase base) (h : AreDigits base ds) {c : Char} (hc : c ∈ ds) :
    c ≠ '+' ∧ c ≠ '-' ∧ (base ≠ 16 → c ≠ 'x' ∧ c ≠ 'X') := by
  have hall : ∀ base ∈ [8, 10, 16],
      (alphabet base).all fun c => c ≠ '+' ∧ c ≠ '-' ∧ (base ≠ 16 → c ≠ 'x' ∧ c ≠ 'X') := by decide
  exact of_decide_eq_true (List.all_eq_true.mp (hall base (by simpa [IsBase] using hbase)) c (h.2 c hc))

theorem signed?_eq_some_iff (hbase : IsBase base) {n : Int} : signed? base cs = some n ↔
    ∃ sign ds, cs = OwnSign.chars sign ++ ds ∧ AreDigits base ds ∧ n = sign.apply (valueOf base ds) := by
  constructor
  · intro h
    unfold signed? at h
    split at h
    · obtain ⟨hdigits, rfl⟩ := (map_digits?_eq_some_iff hbase).mp h
      exact ⟨.plus, _, rfl, hdigits, rfl⟩
    · obtain ⟨hdigits, rfl⟩ := (map_digits?_eq_some_iff hbase).mp h
      exact ⟨.minus, _, rfl, hdigits, rfl⟩
    · obtain ⟨hdigits, rfl⟩ := (map_digits?_eq_some_iff hbase).mp h
      exact ⟨.none, _, rfl, hdigits, rfl⟩
  · rintro ⟨sign, ds, rfl, hdigits, rfl⟩
    cases sign with
    | plus => exact (map_digits?_eq_some_iff hbase).mpr ⟨hdigits, rfl⟩
    | minus => exact (map_digits?_eq_some_iff hbase).mpr ⟨hdigits, rfl⟩
    | none =>
      obtain ⟨d, ds, rfl⟩ := List.exists_cons_of_ne_nil hdigits.1
      obtain ⟨hplus, hminus, -⟩ := hdigits.ne hbase List.mem_cons_self
      unfold signed?
      split
      · rename_i heq
        exact absurd (List.cons.inj heq).1 hplus
      · rename_i heq
        exact absurd (List.cons.inj heq).1 hminus
      · exact (map_digits?_eq_some_iff hbase).mpr ⟨hdigits, rfl⟩

/-! ## Constants -/

theorem magnitude?_octal {c : Char} (hx : c ≠ 'x') (hX : c ≠ 'X') (cs : List Char) :
    magnitude? ('0' :: c :: cs) = signed? 8 (c :: cs) := by
  unfold magnitude?
  split
  · rename_i heq
    exact absurd (List.cons.inj (List.cons.inj heq).2).1 hx
  · rename_i heq
    exact absurd (List.cons.inj (List.cons.inj heq).2).1 hX
  · rename_i heq
    exact congrArg (signed? 8) (List.cons.inj heq).2.symm
  · rename_i hlong
    exact absurd rfl (hlong c cs)

theorem magnitude?_decimal (h : cs = ['0'] ∨ cs.head? ≠ some '0') : magnitude? cs = signed? 10 cs := by
  rcases h with rfl | hfirst
  · rfl
  · unfold magnitude?
    split
    · exact absurd rfl hfirst
    · exact absurd rfl hfirst
    · exact absurd rfl hfirst
    · rfl

theorem magnitude?_eq_some_iff {n : Int} : magnitude? cs = some n ↔ ∃ sign, Magnitude sign cs n := by
  have hoctal : IsBase 8 := Or.inl rfl
  have hdecimal : IsBase 10 := Or.inr (Or.inl rfl)
  have hhexadecimal : IsBase 16 := Or.inr (Or.inr rfl)
  constructor
  · intro h
    unfold magnitude? at h
    split at h
    · obtain ⟨sign, ds, rfl, hdigits, rfl⟩ := (signed?_eq_some_iff hhexadecimal).mp h
      exact ⟨sign, .hexadecimal (Or.inl rfl) hdigits⟩
    · obtain ⟨sign, ds, rfl, hdigits, rfl⟩ := (signed?_eq_some_iff hhexadecimal).mp h
      exact ⟨sign, .hexadecimal (Or.inr rfl) hdigits⟩
    · obtain ⟨sign, ds, hsplit, hdigits, rfl⟩ := (signed?_eq_some_iff hoctal).mp h
      rw [hsplit]
      exact ⟨sign, .octal hdigits⟩
    · rename_i hlong
      obtain ⟨sign, ds, rfl, hdigits, rfl⟩ := (signed?_eq_some_iff hdecimal).mp h
      refine ⟨sign, .decimal hdigits ?_⟩
      rintro rfl
      match ds, hlong with
      | [], _ => exact Or.inr (by simp)
      | [d], _ =>
        by_cases hd : d = '0'
        · exact Or.inl (by rw [hd])
        · exact Or.inr (by simpa using hd)
      | d :: e :: ds, hlong =>
        refine Or.inr fun hd => ?_
        obtain rfl := Option.some.inj hd
        exact hlong e ds rfl
  · rintro ⟨sign, h⟩
    cases h with
    | @hexadecimal x ds hmark hdigits =>
      have hread := (signed?_eq_some_iff hhexadecimal).mpr ⟨sign, ds, rfl, hdigits, rfl⟩
      rcases hmark with rfl | rfl
      · exact hread
      · exact hread
    | @octal ds hdigits =>
      have hread := (signed?_eq_some_iff hoctal).mpr ⟨sign, ds, rfl, hdigits, rfl⟩
      cases sign with
      | plus => exact hread
      | minus => exact hread
      | none =>
        obtain ⟨d, ds, rfl⟩ := List.exists_cons_of_ne_nil hdigits.1
        obtain ⟨hx, hX⟩ := (hdigits.ne hoctal List.mem_cons_self).2.2 (by decide)
        rw [OwnSign.chars, List.nil_append, magnitude?_octal hx hX]
        exact hread
    | @decimal ds hdigits hfirst =>
      have hread := (signed?_eq_some_iff hdecimal).mpr ⟨sign, ds, rfl, hdigits, rfl⟩
      rw [magnitude?_decimal, hread]
      cases sign with
      | plus => exact Or.inr (by simp [OwnSign.chars])
      | minus => exact Or.inr (by simp [OwnSign.chars])
      | none => exact hfirst rfl

theorem fits32_iff {n : Int} : fits32 n = true ↔ -2147483648 ≤ n ∧ n ≤ 2147483647 := by
  simp [fits32]

theorem fits64_iff {n : Int} : fits64 n = true ↔ -9223372036854775808 ≤ n ∧ n ≤ 9223372036854775807 := by
  simp [fits64]

/-- The least number is the one that cannot be negated. -/
theorem fits64_neg_iff {n : Int} (h : fits64 n = true) : fits64 (-n) = true ↔ n ≠ -9223372036854775808 := by
  rw [fits64_iff] at h ⊢
  omega

theorem filter_magnitude?_eq_some_iff {n : Int} : (magnitude? cs).filter fits64 = some n ↔
    (∃ sign, Magnitude sign cs n) ∧ fits64 n = true := by
  rw [Option.filter_eq_some_iff, magnitude?_eq_some_iff]

/-- The digits are read in 64 bits, which is more than a number of 32 bits needs. -/
theorem constant_eq_some_iff {n : Int} (hfits : fits32 n = true) : constant cs = .ok (some n) ↔
    (cs.head? ≠ some '-' ∧ ∃ sign, Magnitude sign cs n) ∨ ∃ ds sign, cs = '-' :: ds ∧ Magnitude sign ds (-n) := by
  rw [fits32_iff] at hfits
  have hword : fits64 n = true := fits64_iff.mpr (by omega)
  have hneg : fits64 (-n) = true := fits64_iff.mpr (by omega)
  unfold constant
  split
  · rename_i ds
    constructor
    · intro h
      split at h
      · rename_i m hm
        split at h
        · obtain ⟨⟨sign, hmagnitude⟩, -⟩ := filter_magnitude?_eq_some_iff.mp hm
          obtain rfl := Option.some.inj (Except.ok.inj h)
          exact Or.inr ⟨ds, sign, rfl, by rwa [Int.neg_neg]⟩
        · cases h
      · cases h
    · rintro (⟨hplain, -⟩ | ⟨_, sign, heq, hmagnitude⟩)
      · exact absurd rfl hplain
      · obtain ⟨-, rfl⟩ := List.cons.inj heq
        rw [filter_magnitude?_eq_some_iff.mpr ⟨⟨sign, hmagnitude⟩, hneg⟩]
        dsimp only
        rw [Int.neg_neg, if_pos hword]
  · rename_i hminus
    rw [Except.ok.injEq, filter_magnitude?_eq_some_iff]
    constructor
    · rintro ⟨⟨sign, hmagnitude⟩, -⟩
      refine Or.inl ⟨fun hhead => ?_, sign, hmagnitude⟩
      obtain ⟨ds, rfl⟩ := List.head?_eq_some_iff.mp hhead
      exact hminus ds rfl
    · rintro (⟨-, hmagnitude⟩ | ⟨ds, _, rfl, -⟩)
      · exact ⟨hmagnitude, hword⟩
      · exact absurd rfl (hminus ds)

/-- The reader breaks off where it negates the least number of 64 bits. -/
theorem constant_eq_error_iff {why : Crash} : constant cs = .error why ↔
    why = .overflow ∧ ∃ ds, cs = '-' :: ds ∧ magnitude? ds = some (-9223372036854775808) := by
  have hleast : fits64 (-9223372036854775808) = true := by decide
  unfold constant
  split
  · rename_i ds
    constructor
    · intro h
      split at h
      · rename_i n hn
        rw [Option.filter_eq_some_iff] at hn
        split at h
        · cases h
        · rename_i hneg
          rw [fits64_neg_iff hn.2, not_not] at hneg
          cases h
          exact ⟨rfl, ds, rfl, hneg ▸ hn.1⟩
      · cases h
    · rintro ⟨rfl, _, heq, hread⟩
      obtain ⟨-, rfl⟩ := List.cons.inj heq
      rw [hread, Option.filter_some, if_pos hleast]
      rfl
  · rename_i hminus
    constructor
    · intro h
      cases h
    · rintro ⟨-, ds, rfl, -⟩
      exact absurd rfl (hminus ds)

/-- **What is read as a number.** The number of a constant, with a sign of its own before the digits or without. -/
theorem parse32_eq_some_iff : parse32 text = .ok (some v) ↔ ∃ sign, Constant sign text v := by
  have hlow := Int32.le_toInt v
  have hhigh := Int32.toInt_lt v
  have hfits : fits32 v.toInt = true := fits32_iff.mpr (by omega)
  have hread : parse32 text = .ok (some v) ↔ constant text.toList = .ok (some v.toInt) := by
    rw [parse32, Except.map_eq_ok_iff]
    constructor
    · rintro ⟨read, hread, hv⟩
      obtain ⟨n, hn, rfl⟩ := Option.map_eq_some_iff.mp hv
      obtain ⟨rfl, hword⟩ := Option.filter_eq_some_iff.mp hn
      rw [fits32_iff] at hword
      rw [hread, Int32.toInt_ofInt_of_le (by omega) (by omega)]
    · intro hread
      refine ⟨some v.toInt, hread, ?_⟩
      rw [Option.filter_some, if_pos hfits, Option.map_some, Int32.ofInt_toInt]
  rw [hread, constant_eq_some_iff hfits]
  constructor
  · rintro (⟨hplain, sign, hmagnitude⟩ | ⟨ds, sign, hminus, hmagnitude⟩)
    · exact ⟨sign, .positive hplain hmagnitude⟩
    · exact ⟨sign, .negative hminus hmagnitude⟩
  · rintro ⟨sign, hconstant⟩
    cases hconstant with
    | positive hplain hmagnitude => exact Or.inl ⟨hplain, sign, hmagnitude⟩
    | negative hminus hmagnitude => exact Or.inr ⟨_, sign, hminus, hmagnitude⟩

/-- The texts that are read as the number `v`. -/
def IsRead (text : String) (v : Int32) : Prop := ∃ sign, Constant sign text v

/-! ## The second sign -/

theorem Magnitude.mem_chars {n : Int} (h : Magnitude sign cs n) : ∀ c ∈ sign.chars, c ∈ cs := by
  intro c hc
  cases h with
  | decimal => exact List.mem_append_left _ hc
  | hexadecimal => exact List.mem_cons_of_mem _ (List.mem_cons_of_mem _ (List.mem_append_left _ hc))
  | octal => exact List.mem_cons_of_mem _ (List.mem_append_left _ hc)

theorem Magnitude.no_sign {n : Int} (h : Magnitude .none cs n) : '+' ∉ cs ∧ '-' ∉ cs := by
  have hdigits {base : Nat} (hbase : IsBase base) {ds : List Char} (h : AreDigits base ds) : '+' ∉ ds ∧ '-' ∉ ds :=
    ⟨fun hc => (h.ne hbase hc).1 rfl, fun hc => (h.ne hbase hc).2.1 rfl⟩
  cases h with
  | @decimal ds digits first => exact hdigits (Or.inr (Or.inl rfl)) digits
  | @hexadecimal x ds mark digits =>
    obtain ⟨hplus, hminus⟩ := hdigits (Or.inr (Or.inr rfl)) digits
    rcases mark with rfl | rfl <;> simp [OwnSign.chars, hplus, hminus]
  | @octal ds digits =>
    obtain ⟨hplus, hminus⟩ := hdigits (Or.inl rfl) digits
    simp [OwnSign.chars, hplus, hminus]

/-- The digits have a sign of their own exactly if the text has a sign that is not the minus sign at its start. -/
theorem Constant.hasSecondSign_iff (h : Constant sign text v) : HasSecondSign text ↔ sign ≠ .none := by
  unfold HasSecondSign
  cases h with
  | positive plain magnitude =>
    cases sign with
    | none =>
      obtain ⟨hplus, hminus⟩ := magnitude.no_sign
      simp only [hplus, false_or, ne_eq, not_true_eq_false, iff_false]
      exact fun hmem => hminus (List.mem_of_mem_tail hmem)
    | plus => exact iff_of_true (Or.inl (magnitude.mem_chars '+' List.mem_cons_self)) (by decide)
    | minus =>
      have hmem := magnitude.mem_chars '-' List.mem_cons_self
      refine iff_of_true (Or.inr ?_) (by decide)
      cases hchars : text.toList with
      | nil => simp [hchars] at hmem
      | cons c cs =>
        rw [hchars] at plain hmem
        exact (List.mem_cons.mp hmem).resolve_left fun heq => plain (by rw [← heq]; rfl)
  | negative minus magnitude =>
    rw [minus]
    cases sign with
    | none =>
      obtain ⟨hplus, hminus⟩ := magnitude.no_sign
      simp [hplus, hminus]
    | plus =>
      have hmem := magnitude.mem_chars '+' List.mem_cons_self
      exact iff_of_true (Or.inl (List.mem_cons_of_mem _ hmem)) (by decide)
    | minus => exact iff_of_true (Or.inr (magnitude.mem_chars '-' List.mem_cons_self)) (by decide)

/-- Without a second sign the texts that are read are the constants of the plain form. -/
theorem isRead_iff_of_plain (h : ¬ HasSecondSign text) : IsRead text v ↔ Constant .none text v := by
  constructor
  · rintro ⟨sign, hconstant⟩
    obtain rfl : sign = .none := not_not.mp fun hsign => h (hconstant.hasSecondSign_iff.mpr hsign)
    exact hconstant
  · exact fun hconstant => ⟨.none, hconstant⟩

/-! ## Negating -/

theorem Magnitude.sign_of_neg {n : Int} (h : Magnitude sign cs n) (hneg : n < 0) : sign = .minus := by
  have happly {m : Nat} (hm : sign.apply m < 0) : sign = .minus := by
    cases sign with
    | none => exact absurd hm (by simp [OwnSign.apply])
    | plus => exact absurd hm (by simp [OwnSign.apply])
    | minus => rfl
  cases h with
  | decimal => exact happly hneg
  | hexadecimal => exact happly hneg
  | octal => exact happly hneg

/-- **What breaks off the reader.** A minus sign before digits that carry one themselves and give the least number of
64 bits. -/
theorem parse32_eq_error_iff {why : Crash} : parse32 text = .error why ↔ why = .overflow ∧
    ∃ cs, text.toList = '-' :: cs ∧ Magnitude .minus cs (-9223372036854775808) := by
  have hread {cs : List Char} : magnitude? cs = some (-9223372036854775808) ↔
      Magnitude .minus cs (-9223372036854775808) := by
    rw [magnitude?_eq_some_iff]
    constructor
    · rintro ⟨sign, hmagnitude⟩
      obtain rfl := hmagnitude.sign_of_neg (by decide)
      exact hmagnitude
    · exact fun hmagnitude => ⟨.minus, hmagnitude⟩
  rw [parse32, Except.map_eq_error_iff, constant_eq_error_iff]
  simp only [hread]

theorem hasSecondSign_of_error {why : Crash} (h : parse32 text = .error why) : HasSecondSign text := by
  obtain ⟨-, cs, hminus, hmagnitude⟩ := parse32_eq_error_iff.mp h
  exact Or.inr (by rw [hminus]; exact hmagnitude.mem_chars '-' List.mem_cons_self)

/-- Without a second sign a text is read as the constant of the plain form that it is, or refused. -/
theorem exists_read_of_plain (h : ¬ HasSecondSign text) :
    ∃ read, parse32 text = .ok read ∧ ∀ v, read = some v ↔ Constant .none text v := by
  cases hread : parse32 text with
  | error why => exact absurd (hasSecondSign_of_error hread) h
  | ok read =>
    refine ⟨read, rfl, fun v => ?_⟩
    rw [← isRead_iff_of_plain h, IsRead, ← parse32_eq_some_iff, hread, Except.ok.injEq]

theorem eq_none_iff_of_read {read : Option Int32} (h : ∀ v, read = some v ↔ Constant .none text v) :
    read = none ↔ ∀ v, ¬ Constant .none text v := by
  rw [Option.eq_none_iff_forall_ne_some]
  exact forall_congr' fun v => not_congr (h v)

end BatchShell.Numeral

namespace BatchShell

open Numeral Text

/-! ## Where numbers are read -/

variable {op : CompareOp} {ignoreCase : Bool} {left right text : String} {v : Int32}

/-- The order of two operands that have been read: that of their numbers if both are constants. -/
def readOrder (ignoreCase : Bool) (left right : String) : Option Int32 → Option Int32 → Ordering
  | some l, some r => compare l.toInt r.toInt
  | _, _ => textOrder ignoreCase left right

theorem readOrder_of_none {l r : Option Int32} (h : l = none ∨ r = none) :
    readOrder ignoreCase left right l r = textOrder ignoreCase left right := by
  rcases h with rfl | rfl
  · rfl
  · cases l <;> rfl

theorem CompareOp.holds_of_ok {l r : Option Int32} (hop : op ≠ .equal) (hleft : parse32 left = .ok l)
    (hright : parse32 right = .ok r) :
    op.holds ignoreCase left right = .ok (op.admits (readOrder ignoreCase left right l r)) := by
  have hnamed : (op == CompareOp.equal) = false := by simpa using hop
  rw [CompareOp.holds, hnamed, if_neg Bool.false_ne_true, operandOrder, hleft, hright]
  cases l <;> cases r <;> rfl

theorem Test.holds_errorLevel_of_ok {glob : Wildcard.Glob} {files : FileTree} {s : State} {level : String}
    {n : Option Int32} (h : parse32 (trim (Expansion.fillLoopVars files s.cwd s.loops level)) = .ok n) :
    Test.holds glob files s ignoreCase (.errorLevel level) = .ok (n.any fun n => decide (n ≤ s.status)) := by
  rw [Test.holds, h]
  rfl

theorem Loop.operand_of_ok {items : List String} {k : Nat} {n : Option Int32} (h : items[k]? = some text)
    (hread : parse32 text = .ok n) : operand items k = .ok ((n.map Int32.toInt).getD 0) := by
  rw [operand, h]
  exact Except.map_eq_ok_iff.mpr ⟨n, hread, rfl⟩

theorem Arithmetic.variableValue_of_ok {env : Environment} {name : String} {n : Option Int32}
    (h : env.get? name = some text) (hread : parse32 (trim text) = .ok n) :
    variableValue env name = .ok (n.getD 0) := by
  rw [variableValue, h]
  exact Except.map_eq_ok_iff.mpr ⟨n, hread, rfl⟩

/-- **Numbers are the constants.** A text without a second sign is read exactly if it is of the plain form, with the
number that it has, and refused otherwise. Named comparisons, `IF ERRORLEVEL`, the operands of a range and the variables
of an expression tell such numbers and texts apart by this. A text with a second sign is read exactly if its digits
carry it, and breaks the reader off exactly if it negates the least number of 64 bits. -/
theorem Numeral.constants_unless_second_sign (text : String) :
    (¬ HasSecondSign text →
      ((∀ v, parse32 text = .ok (some v) ↔ Constant .none text v) ∧
        (parse32 text = .ok none ↔ ∀ v, ¬ Constant .none text v)) ∧
      (∀ op ignoreCase right, op ≠ .equal → ¬ HasSecondSign right →
        (∀ l r, Constant .none text l → Constant .none right r →
          CompareOp.holds op ignoreCase text right = .ok (op.admits (compare l.toInt r.toInt))) ∧
        ((∀ l, ¬ Constant .none text l) ∨ (∀ r, ¬ Constant .none right r) →
          CompareOp.holds op ignoreCase text right = .ok (op.admits (textOrder ignoreCase text right)))) ∧
      (∀ glob files s ignoreCase level, trim (Expansion.fillLoopVars files s.cwd s.loops level) = text →
        ∃ answer, Test.holds glob files s ignoreCase (.errorLevel level) = .ok answer ∧
          (answer = true ↔ ∃ n, Constant .none text n ∧ n ≤ s.status)) ∧
      (∀ items k, items[k]? = some text →
        (∀ v, Constant .none text v → Loop.operand items k = .ok v.toInt) ∧
        ((∀ v, ¬ Constant .none text v) → Loop.operand items k = .ok 0)) ∧
      ∀ env name value, Environment.get? env name = some value → trim value = text →
        (∀ v, Constant .none text v → Arithmetic.variableValue env name = .ok v) ∧
        ((∀ v, ¬ Constant .none text v) → Arithmetic.variableValue env name = .ok 0)) ∧
    (HasSecondSign text → ∀ v, parse32 text = .ok (some v) ↔ ∃ sign, sign ≠ .none ∧ Constant sign text v) ∧
    (∀ why, parse32 text = .error why ↔ why = .overflow ∧
      ∃ cs, text.toList = '-' :: cs ∧ Magnitude .minus cs (-9223372036854775808)) ∧
    ∀ items range, Loop.rangeOf items = .ok range ↔ ∃ start step stop, Loop.operand items 0 = .ok start ∧
      Loop.operand items 1 = .ok step ∧ Loop.operand items 2 = .ok stop ∧ range = .ofBounds start step stop := by
  refine ⟨fun h => ?_, fun h v => ?_, fun why => parse32_eq_error_iff, fun items range => Loop.rangeOf_eq_ok_iff⟩
  · obtain ⟨read, hread, hsome⟩ := exists_read_of_plain h
    have hnone : read = none ↔ ∀ v, ¬ Constant .none text v := eq_none_iff_of_read hsome
    refine ⟨⟨fun v => ?_, ?_⟩, fun op ignoreCase right hop hright => ?_,
      fun glob files s ignoreCase level hfilled => ?_, fun items k hitem => ?_, fun env name value hvalue htrim => ?_⟩
    · rw [hread, Except.ok.injEq, hsome]
    · rw [hread, Except.ok.injEq, hnone]
    · obtain ⟨read', hread', hsome'⟩ := exists_read_of_plain hright
      have hholds : op.holds ignoreCase text right = .ok (op.admits (readOrder ignoreCase text right read read')) :=
        CompareOp.holds_of_ok hop hread hread'
      refine ⟨fun l r hl hr => ?_, fun htext => ?_⟩
      · rw [hholds, (hsome l).mpr hl, (hsome' r).mpr hr, readOrder]
      · rw [hholds, readOrder_of_none (htext.imp hnone.mpr (eq_none_iff_of_read hsome').mpr)]
    · refine ⟨_, Test.holds_errorLevel_of_ok (hfilled ▸ hread), ?_⟩
      simp only [← hsome]
      cases read <;> simp
    · have hoperand := Loop.operand_of_ok hitem hread
      refine ⟨fun v hv => ?_, fun hv => ?_⟩
      · rw [hoperand, (hsome v).mpr hv]
        rfl
      · rw [hoperand, hnone.mpr hv]
        rfl
    · have hvariable := Arithmetic.variableValue_of_ok hvalue (htrim ▸ hread)
      refine ⟨fun v hv => ?_, fun hv => ?_⟩
      · rw [hvariable, (hsome v).mpr hv]
        rfl
      · rw [hvariable, hnone.mpr hv]
        rfl
  · rw [parse32_eq_some_iff]
    exact exists_congr fun sign => iff_and_self.mpr fun hconstant => hconstant.hasSecondSign_iff.mp h

/-- The least number and the one beyond it, octal digits and a digit that is none of them. -/
theorem Numeral.constants_unless_second_sign_least :
    Constant .none "-0x80000000" (-2147483648) ∧ (∀ v, ¬ Constant .none "-0x80000001" v) ∧
      CompareOp.holds .lss false "021" "0x12" = .ok true ∧ CompareOp.holds .lss false "08" "1" = .ok true := by
  obtain ⟨⟨hleast, -⟩, -⟩ := (constants_unless_second_sign "-0x80000000").1 (by decide)
  obtain ⟨⟨-, hbeyond⟩, -⟩ := (constants_unless_second_sign "-0x80000001").1 (by decide)
  obtain ⟨⟨hoctal, -⟩, hnumbers, -⟩ := (constants_unless_second_sign "021").1 (by decide)
  obtain ⟨⟨-, height⟩, htexts, -⟩ := (constants_unless_second_sign "08").1 (by decide)
  obtain ⟨⟨hhexadecimal, -⟩, -⟩ := (constants_unless_second_sign "0x12").1 (by decide)
  refine ⟨(hleast _).mp (by decide +kernel), hbeyond.mp (by decide +kernel), ?_, ?_⟩
  · rw [(hnumbers .lss false "0x12" (by decide) (by decide)).1 17 18 ((hoctal _).mp (by decide +kernel))
      ((hhexadecimal _).mp (by decide +kernel))]
    decide
  · rw [(htexts .lss false "1" (by decide) (by decide)).2 (Or.inl (height.mp (by decide +kernel)))]
    decide +kernel

/-- A plus sign, a second minus sign and signs behind the marks of the bases: none of these texts is a constant, and all
are read but the last, which breaks the reader off. -/
theorem Numeral.second_sign_is_read :
    (∀ p ∈ [("+5", 5), ("--5", 5), ("0x-5", -5), ("0+7", 7)],
      parse32 p.1 = .ok (some p.2) ∧ ∀ v, ¬ Constant .none p.1 v) ∧
    CompareOp.holds .equ false "+5" "5" = .ok true ∧
    parse32 "--9223372036854775808" = .error .overflow := by
  refine ⟨fun p hp => ⟨?_, fun v hv => ?_⟩, by decide +kernel, by decide +kernel⟩
  · revert p
    decide +kernel
  · have hsigns : ∀ p ∈ [("+5", (5 : Int32)), ("--5", 5), ("0x-5", -5), ("0+7", 7)], HasSecondSign p.1 := by decide
    exact hv.hasSecondSign_iff.mp (hsigns p hp) rfl

end BatchShell
