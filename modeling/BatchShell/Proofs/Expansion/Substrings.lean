import BatchShell.Proofs.Engine.Transparency
import BatchShell.Proofs.Numeral.Constants
import BatchShell.Proofs.Numeral.Decimal

/-!
# Parts of a value

`~start,length` takes a part of a value. Here the part is given by its positions, counted in integers without bound:
`partStart` and `partStop` say where it starts and where it ends, and `IsPart` that a text has the characters between
them.

The code adds in 64 bits. A negative start or length is added to the number of characters, and that sum is always
there. The sum of the start and a length is not: behind the first character a length can lead beyond 64 bits, and then
the expansion breaks off (`substring_overflow`), where the length asks for all that is left.

* `isPart_substring`: without such a sum, the part is the one that is asked for.
* `expandReference?_part`: both numbers are read as they are written, over all of 64 bits.
* `substring_part_unless_overflow`: when there is a part, that it is the one that is asked for, and what comes out
  otherwise.
-/
namespace BatchShell.Expansion

open Text

/-- The position `i` of a text with `size` characters, moved to the nearest end if it is outside. -/
def clamp (size i : Int) : Int := max 0 (min i size)

/-- Where a part starts: so far from the front, or from the end if `start` is negative. -/
def partStart (size start : Int) : Int := if start < 0 then clamp size (size + start) else clamp size start

/-- Where a part that starts at `first` ends: with the value, or `length` characters behind its start, or so far before
the end of the value if `length` is negative. -/
def partStop (size first : Int) : Option Int → Int
  | none => size
  | some length => if length < 0 then max (size + length) 0 else min (first + length) size

/-- The text has the characters of `value` from position `first` to before position `stop`, if there are any. -/
def IsPart (value text : String) (first stop : Int) : Prop :=
  ∀ k : Nat, text.toList[k]? = if first + k < stop then value.toList[(first + k).toNat]? else none

/-- The sum of the start and the length is beyond 64 bits. -/
def Overflows (first : Int) (length : Option Int) : Prop :=
  ∃ n, length = some n ∧ 0 ≤ n ∧ 9223372036854775807 < first + n

variable {value : String} {start : Int} {length : Option Int}

theorem partStart_nonneg (size start : Int) : 0 ≤ partStart size start := by
  unfold partStart clamp
  split <;> omega

theorem partStart_le {size : Nat} : partStart size start ≤ size := by
  unfold partStart clamp
  split <;> omega

theorem partStart_eq (size : Nat) (start : Int) :
    (if start < 0 then max (size + start) 0 else min start size) = partStart size start := by
  unfold partStart clamp
  split <;> omega

/-- A length that reaches the end of the value stops there. -/
theorem partStop_of_reach {size : Nat} {n : Int} (h : size - partStart size start ≤ n) :
    partStop size (partStart size start) (some n) = size := by
  have hle : partStart size start ≤ size := partStart_le
  rw [partStop, if_neg (by omega)]
  omega

/-- Where a part is cut off, in the code's arithmetic of 64 bits. -/
def wordStop (size first : Int) : Option Int → Except Crash Int
  | none => .ok size
  | some length => if length < 0 then .ok (max (size + length) 0) else (add64 first length).map (min · size)

theorem substring_eq (value : String) (start : Int) (length : Option Int) :
    substring value start length =
      (wordStop value.length (partStart value.length start) length).map fun stop =>
        String.ofList ((value.toList.take stop.toNat).drop (partStart value.length start).toNat) := by
  have hpart (last : Except Crash Int) (f : Int → String) : (last >>= fun n => .ok (f n)) = last.map f := by
    cases last <;> rfl
  rw [← partStart_eq]
  cases length with
  | none => rfl
  | some n =>
    unfold substring wordStop
    dsimp only
    split
    · rfl
    · exact hpart _ _

theorem add64_eq_ok {a b : Int} (hlow : -9223372036854775808 ≤ a + b) (hhigh : a + b ≤ 9223372036854775807) :
    add64 a b = .ok (a + b) := if_pos (Numeral.fits64_iff.mpr ⟨hlow, hhigh⟩)

theorem add64_eq_overflow {a b : Int} (hsum : 9223372036854775807 < a + b) : add64 a b = .error .overflow := by
  rw [add64, if_neg]
  intro hfits
  exact absurd (Numeral.fits64_iff.mp hfits).2 (by omega)

theorem wordStop_eq_ok {size : Nat} (hfirst : 0 ≤ partStart size start)
    (h : ¬ Overflows (partStart size start) length) :
    wordStop size (partStart size start) length = .ok (partStop size (partStart size start) length) := by
  cases length with
  | none => rfl
  | some n =>
    by_cases hn : n < 0
    · rw [wordStop, partStop, if_pos hn, if_pos hn]
    · have hsum : partStart size start + n ≤ 9223372036854775807 :=
        Int.not_lt.mp fun hlt => h ⟨n, rfl, Int.not_lt.mp hn, hlt⟩
      rw [wordStop, partStop, if_neg hn, if_neg hn, add64_eq_ok (by omega) hsum, Except.map_ok]

/-- What is taken up to `stop` and dropped up to `first` are the characters between them. -/
theorem getElem?_between (cs : List Char) {first stop : Int} (hfirst : 0 ≤ first) (k : Nat) :
    ((cs.take stop.toNat).drop first.toNat)[k]? = if first + k < stop then cs[(first + k).toNat]? else none := by
  have hposition : first.toNat + k = (first + k).toNat := by omega
  rw [List.getElem?_drop, List.getElem?_take, hposition]
  by_cases hin : first + k < stop
  · rw [if_pos hin, if_pos (by omega)]
  · rw [if_neg hin, if_neg (by omega)]

theorem isPart_substring (h : ¬ Overflows (partStart value.length start) length) :
    ∃ text, substring value start length = .ok text ∧ IsPart value text (partStart value.length start)
      (partStop value.length (partStart value.length start) length) := by
  have hfirst := partStart_nonneg value.length start
  rw [substring_eq, wordStop_eq_ok hfirst h, Except.map_ok]
  refine ⟨_, rfl, fun k => ?_⟩
  rw [String.toList_ofList, getElem?_between value.toList hfirst]

/-- With a sum beyond 64 bits there is no part. -/
theorem substring_overflow (h : Overflows (partStart value.length start) length) :
    substring value start length = .error .overflow := by
  obtain ⟨n, rfl, hnonneg, hsum⟩ := h
  rw [substring_eq, wordStop, if_neg (by omega), add64_eq_overflow hsum]
  rfl

/-! ## Reading the two numbers -/

theorem isEditBlank_of_isDigit {c : Char} (h : c.isDigit = true) : isEditBlank c = false := by
  have hblank := Numeral.isBlank_of_isDigit h
  simp only [isBlank, isEditBlank, Bool.or_eq_false_iff, Bool.and_eq_false_iff, decide_eq_false_iff_not,
    beq_eq_false_iff_ne, ne_eq] at hblank ⊢
  refine ⟨?_, by omega⟩
  rintro rfl
  simp at hblank

/-- What follows a number in an edit: nothing, or the comma before the length. -/
def EndsNumber (rest : List Char) : Prop := ∀ c ∈ rest.head?, c = ','

theorem EndsNumber.dropWhile {rest : List Char} (h : EndsNumber rest) {p : Char → Bool} (hp : p ',' = false) :
    rest.dropWhile p = rest := by
  cases rest with
  | nil => rfl
  | cons c rest =>
    obtain rfl : c = ',' := h c rfl
    rw [List.dropWhile_cons, hp, if_neg Bool.false_ne_true]

theorem EndsNumber.takeWhile {rest : List Char} (h : EndsNumber rest) {p : Char → Bool} (hp : p ',' = false) :
    rest.takeWhile p = [] := by
  cases rest with
  | nil => rfl
  | cons c rest =>
    obtain rfl : c = ',' := h c rfl
    rw [List.takeWhile_cons, hp, if_neg Bool.false_ne_true]

/-- Digits are read to their end, also behind a minus sign. -/
theorem editNumber?_digits {ds rest : List Char} (hne : ds ≠ []) (hdigits : ∀ c ∈ ds, c.isDigit = true)
    (hrest : EndsNumber rest) : editNumber? (ds ++ rest) = some (String.ofList ds, rest) ∧
      editNumber? ('-' :: (ds ++ rest)) = some (String.ofList ('-' :: ds), rest) := by
  have htake : (ds ++ rest).takeWhile Char.isDigit = ds := by
    rw [List.takeWhile_append_of_pos hdigits, hrest.takeWhile rfl, List.append_nil]
  have hdrop : ((ds ++ rest).dropWhile Char.isDigit).dropWhile isEditBlank = rest := by
    rw [List.dropWhile_append_of_pos hdigits, hrest.dropWhile rfl, hrest.dropWhile rfl]
  have hsome : ds.isEmpty = false := List.isEmpty_eq_false_iff.mpr hne
  constructor
  · obtain ⟨d, ds, rfl⟩ := List.exists_cons_of_ne_nil hne
    have hd := hdigits d List.mem_cons_self
    have hstart : (d :: ds ++ rest).dropWhile isEditBlank = d :: ds ++ rest := by
      rw [List.cons_append, List.dropWhile_cons, isEditBlank_of_isDigit hd, if_neg Bool.false_ne_true]
    unfold editNumber?
    rw [hstart]
    dsimp only
    split
    · rename_i heq
      obtain ⟨rfl, -⟩ := List.cons.inj heq
      cases hd
    · simp only [htake, hdrop, hsome, Bool.false_eq_true, if_false, List.nil_append]
  · have hstart : ('-' :: (ds ++ rest)).dropWhile isEditBlank = '-' :: (ds ++ rest) := rfl
    unfold editNumber?
    rw [hstart]
    simp only [htake, hdrop, hsome, Bool.false_eq_true, if_false, List.cons_append, List.nil_append]

/-- A number is read as it is written. -/
theorem editNumber?_repr (n : Int) (rest : List Char) (hrest : EndsNumber rest) :
    editNumber? (n.repr.toList ++ rest) = some (n.repr, rest) := by
  have hdigits (m : Nat) : ∀ c ∈ Nat.toDigits 10 m, c.isDigit = true := fun c hc =>
    Nat.isDigit_of_mem_toDigits (by decide) (by decide) hc
  have hread (m : Nat) := editNumber?_digits Nat.toDigits_ne_nil (hdigits m) hrest
  have htext := Numeral.toList_repr n
  rw [← String.ofList_toList (s := n.repr), String.toList_ofList, htext]
  split
  · exact (hread _).1
  · exact (hread _).2

/-- How a part is asked for. -/
def partEdit (start : Int64) : Option Int64 → String
  | none => "~" ++ toString start
  | some length => "~" ++ toString start ++ "," ++ toString length

theorem substringEdit?_partEdit (start : Int64) (length : Option Int64) :
    substringEdit? (partEdit start length) = some (toString start, length.map toString) := by
  have hstart : toString start = start.toInt.repr := rfl
  cases length with
  | none =>
    have hchars : (partEdit start none).toList = '~' :: (start.toInt.repr.toList ++ []) := by
      simp [partEdit, hstart]
    rw [substringEdit?, hchars]
    simp only [editNumber?_repr start.toInt [] (by simp [EndsNumber])]
    rfl
  | some n =>
    have hlength : toString n = n.toInt.repr := rfl
    have hchars : (partEdit start (some n)).toList =
        '~' :: (start.toInt.repr.toList ++ ',' :: (n.toInt.repr.toList ++ [])) := by
      simp [partEdit, hstart, hlength]
    rw [substringEdit?, hchars]
    simp only [editNumber?_repr start.toInt (',' :: _) (by simp [EndsNumber]),
      editNumber?_repr n.toInt [] (by simp [EndsNumber])]
    rfl

/-- Both numbers of a reference count as they are written. -/
theorem expandReference?_part (now : Ambient) {s : State} {name value : String} (hname : name ≠ "")
    (hcolon : ':' ∉ name.toList) (hvalue : variableValue? now s name = some value) (start : Int64)
    (length : Option Int64) : expandReference? now s (name ++ ":" ++ partEdit start length) =
      (substring value start.toInt (length.map Int64.toInt)).map some := by
  have hcut : cutAt ':' (name ++ ":" ++ partEdit start length) = some (name, partEdit start length) :=
    cutAt_append hcolon _
  have hnonempty : name.isEmpty = false := by simpa using hname
  have hlength : (length.map toString).bind Numeral.decimal64? = length.map Int64.toInt := by
    cases length with
    | none => rfl
    | some n => exact Numeral.decimal64?_toString n
  rw [expandReference?, hcut]
  simp only [hnonempty, Bool.false_eq_true, if_false, hvalue]
  rw [applyEdit?, substringEdit?_partEdit]
  simp only [Numeral.decimal64?_toString, hlength]

/-! ## The part that is asked for -/

/-- What reaches to the end of the value is all that is left. -/
theorem IsPart.rest {text : String} {first : Int} (hfirst : 0 ≤ first) (h : IsPart value text first value.length) :
    text = String.ofList (value.toList.drop first.toNat) := by
  rw [← String.toList_inj, String.toList_ofList]
  apply List.ext_getElem?
  intro k
  have hposition : first.toNat + k = (first + k).toNat := by omega
  rw [h k, List.getElem?_drop, hposition]
  split
  · rfl
  · rw [List.getElem?_eq_none]
    rw [String.length_toList]
    omega

/-- **The part of a value.** Let the start and the length be any numbers of 64 bits. The sums with the number of
characters stay within 64 bits. As long as the sum of the start and the length does too, the characters from the start
to the end that is asked for are taken, and a length that reaches the end takes all that is left. Beyond 64 bits the
expansion breaks off, whatever was asked for. A reference reads both numbers as they are written. -/
theorem substring_part_unless_overflow (value : String) (start : Int64) (length : Option Int64) :
    let size : Int := value.length
    let first := partStart size start.toInt
    let stop := partStop size first (length.map Int64.toInt)
    let part := substring value start.toInt (length.map Int64.toInt)
    (start.toInt < 0 → -9223372036854775808 ≤ size + start.toInt ∧ size + start.toInt < size) ∧
      (∀ n, length = some n → n.toInt < 0 → -9223372036854775808 ≤ size + n.toInt ∧ size + n.toInt < size) ∧
      (¬ Overflows first (length.map Int64.toInt) → ∃ text, part = .ok text ∧ IsPart value text first stop ∧
        ∀ n, length = some n → size - first ≤ n.toInt → text = String.ofList (value.toList.drop first.toNat)) ∧
      (Overflows first (length.map Int64.toInt) ↔ part = .error .overflow) ∧
      ∀ (now : Ambient) (s : State) (name : String), name ≠ "" → ':' ∉ name.toList →
        variableValue? now s name = some value →
          expandReference? now s (name ++ ":" ++ partEdit start length) = part.map some := by
  intro size first stop part
  have hlow := Int64.le_toInt start
  have hsize : 0 ≤ size := Int.natCast_nonneg _
  have hfirst : 0 ≤ first := partStart_nonneg size start.toInt
  have hexact : ¬ Overflows first (length.map Int64.toInt) → ∃ text, part = .ok text ∧ IsPart value text first stop :=
    isPart_substring
  refine ⟨fun hneg => by omega, fun n _ hneg => ?_, fun h => ?_, ⟨substring_overflow, fun hpart => ?_⟩,
    fun now s name hname hcolon hvalue => expandReference?_part now hname hcolon hvalue start length⟩
  · have := Int64.le_toInt n
    omega
  · obtain ⟨text, htext, hpart⟩ := hexact h
    refine ⟨text, htext, hpart, fun n hlength hreach => ?_⟩
    subst hlength
    have hall : stop = size := partStop_of_reach hreach
    rw [hall] at hpart
    exact hpart.rest hfirst
  · by_contra h
    obtain ⟨text, htext, -⟩ := hexact h
    cases htext.symm.trans hpart

/-- Two characters from the fourth last on, and all of them with the greatest length that does not lead too far. -/
theorem substring_part_unless_overflow_end :
    ¬ Overflows (partStart 6 (-4)) (some 2) ∧ ¬ Overflows (partStart 6 (-4)) (some 9223372036854775805) ∧
      (∃ text, substring "äbcdeß" (-4) (some 2) = .ok text ∧ IsPart "äbcdeß" text 2 4) ∧
      substring "äbcdeß" (-4) (some 9223372036854775805) = .ok "cdeß" := by
  have hshort : ¬ Overflows (partStart 6 (-4)) (some 2) := by
    rintro ⟨n, hn, -, hsum⟩
    obtain rfl := Option.some.inj hn
    exact absurd hsum (by decide)
  have hlong : ¬ Overflows (partStart 6 (-4)) (some 9223372036854775805) := by
    rintro ⟨n, hn, -, hsum⟩
    obtain rfl := Option.some.inj hn
    exact absurd hsum (by decide)
  obtain ⟨-, -, hpart, -⟩ := substring_part_unless_overflow "äbcdeß" (-4) (some 2)
  obtain ⟨-, -, hrest, -⟩ := substring_part_unless_overflow "äbcdeß" (-4) (some 9223372036854775805)
  obtain ⟨short, htext, hshortPart, -⟩ := hpart hshort
  obtain ⟨rest, hall, -, hdrop⟩ := hrest hlong
  have hend : String.ofList ("äbcdeß".toList.drop 2) = "cdeß" := by decide +kernel
  have hrest : rest = "cdeß" := (hdrop _ rfl (by decide)).trans hend
  exact ⟨hshort, hlong, ⟨short, htext, hshortPart⟩, hall.trans (congrArg Except.ok hrest)⟩

/-- Behind the first character the greatest length there is breaks off, where all that is left was asked for. -/
theorem overlong_length_breaks_off :
    Overflows (partStart 2 1) (some 9223372036854775807) ∧
      substring "ab" 1 (some 9223372036854775807) = .error .overflow ∧
      IsPart "ab" "b" (partStart 2 1) (partStop 2 (partStart 2 1) (some 9223372036854775807)) := by
  refine ⟨⟨_, rfl, by decide, by decide⟩, rfl, fun k => ?_⟩
  match k with
  | 0 => decide
  | k + 1 =>
    have hstop : partStop 2 (partStart 2 1) (some 9223372036854775807) = 2 := by decide
    have hstart : partStart 2 1 = 1 := by decide
    rw [hstop, hstart, if_neg (by omega)]
    rfl

end BatchShell.Expansion
