import BatchShell.Expansion.Reference
import BatchShell.Proofs.Text.Bytes

/-!
# Which occurrences are replaced

A replacement goes over a value from left to right. It takes the first occurrence, goes on behind it and takes the
first one there, so of two that overlap it takes the left one. Case does not matter for `A` to `Z`.

* `Divided` cuts a value at these occurrences. There is one way to do it (`Divided.unique`), and `replace` puts the
  new text in the place of each of them (`exists_divided`).
* `exists_of_afterFirst?`: with an asterisk the first occurrence goes together with all that stands before it.
* `Bytewise.replace?` does the same on bytes: it compares bytes, goes on by the number of bytes of the pattern and cuts
  the value at byte positions, which fails inside a character. It never fails, and each round of it ends behind the
  place where it began (`Bytewise.replaceFrom?_divided`).
* `replace_leftmost`: all of it for the texts of an edit.
-/
namespace BatchShell.Expansion

open Text

variable {old value : List Char}

/-- Equality up to the case of `A` to `Z`. -/
def SameLetters (a b : List Char) : Prop := a.map Char.toUpper = b.map Char.toUpper

instance (a b : List Char) : Decidable (SameLetters a b) :=
  inferInstanceAs (Decidable (a.map Char.toUpper = b.map Char.toUpper))

/-- Does an occurrence of `old` start at position `i`? -/
def StandsAt (old value : List Char) (i : Nat) : Prop :=
  ∃ before found rest, value = before ++ (found ++ rest) ∧ before.length = i ∧ SameLetters found old

/-- Does a text end in an occurrence of `old`? -/
def EndsIn (old text : List Char) : Prop := ∃ before found, text = before ++ found ∧ SameLetters found old

theorem SameLetters.length_eq {a b : List Char} (h : SameLetters a b) : a.length = b.length := by
  simpa using congrArg List.length h

theorem afterIgnoringCase?_eq_some_iff {rest : List Char} :
    afterIgnoringCase? old value = some rest ↔ ∃ found, value = found ++ rest ∧ SameLetters found old := by
  induction old generalizing value with
  | nil => simp [afterIgnoringCase?, SameLetters]
  | cons p ps ih =>
    cases value with
    | nil =>
      simp only [afterIgnoringCase?, reduceCtorEq, false_iff, not_exists, not_and]
      intro found hsplit hsame
      obtain ⟨rfl, -⟩ := List.append_eq_nil_iff.mp hsplit.symm
      cases hsame
    | cons c cs =>
      rw [afterIgnoringCase?]
      by_cases hfirst : p.toUpper = c.toUpper
      · rw [if_pos (beq_iff_eq.mpr hfirst), ih]
        constructor
        · rintro ⟨found, rfl, hsame⟩
          exact ⟨c :: found, rfl, by simpa [SameLetters, hfirst] using hsame⟩
        · rintro ⟨_ | ⟨d, found⟩, hsplit, hsame⟩
          · cases hsame
          · obtain ⟨rfl, rfl⟩ := List.cons.inj hsplit
            exact ⟨found, rfl, (List.cons.inj hsame).2⟩
      · rw [if_neg (by simpa using hfirst)]
        simp only [reduceCtorEq, false_iff, not_exists, not_and]
        rintro (_ | ⟨d, found⟩) hsplit hsame
        · cases hsame
        · obtain ⟨rfl, -⟩ := List.cons.inj hsplit
          exact hfirst (List.cons.inj hsame).1.symm

theorem standsAt_zero_iff : StandsAt old value 0 ↔ ∃ rest, afterIgnoringCase? old value = some rest := by
  simp only [afterIgnoringCase?_eq_some_iff]
  constructor
  · rintro ⟨before, found, rest, rfl, hlength, hsame⟩
    rw [List.length_eq_zero_iff.mp hlength]
    exact ⟨rest, found, rfl, hsame⟩
  · rintro ⟨rest, found, rfl, hsame⟩
    exact ⟨[], found, rest, rfl, rfl, hsame⟩

theorem standsAt_succ_iff {c : Char} {i : Nat} : StandsAt old (c :: value) (i + 1) ↔ StandsAt old value i := by
  constructor
  · rintro ⟨_ | ⟨d, before⟩, found, rest, hsplit, hlength, hsame⟩
    · cases hlength
    · exact ⟨before, found, rest, (List.cons.inj hsplit).2, Nat.succ.inj hlength, hsame⟩
  · rintro ⟨before, found, rest, rfl, rfl, hsame⟩
    exact ⟨c :: before, found, rest, rfl, rfl, hsame⟩

/-! ## Dividing a value -/

/-- A value cut at the occurrences of `old`, from left to right. A piece is the text up to an occurrence, and the
occurrence; none starts earlier behind the one before. In the last text there is none. -/
inductive Divided (old : List Char) : List Char → List (List Char × List Char) → List Char → Prop where
  | last {text} (none : ∀ i, ¬ StandsAt old text i) : Divided old text [] text
  | next {text before found rest pieces last} (split : text = before ++ (found ++ rest))
    (same : SameLetters found old) (first : ∀ i < before.length, ¬ StandsAt old text i)
    (more : Divided old rest pieces last) : Divided old text ((before, found) :: pieces) last

namespace Divided

variable {pieces pieces' : List (List Char × List Char)} {last last' : List Char}

/-- The pieces and the last text make up the value. -/
theorem joined (h : Divided old value pieces last) : value = pieces.flatMap (fun p => p.1 ++ p.2) ++ last := by
  induction h with
  | last _ => rfl
  | next split _ _ _ ih => rw [split, List.flatMap_cons, List.append_assoc, List.append_assoc, ← ih]

theorem same (h : Divided old value pieces last) : ∀ p ∈ pieces, SameLetters p.2 old := by
  induction h with
  | last _ => exact List.forall_mem_nil _
  | next _ same _ _ ih => exact List.forall_mem_cons.mpr ⟨same, ih⟩

/-- A character at which no occurrence starts goes to the text that follows it. -/
theorem cons {c : Char} (hfirst : ¬ StandsAt old (c :: value) 0) (h : Divided old value pieces last) :
    ∃ pieces' last', Divided old (c :: value) pieces' last' ∧ ∀ new,
      pieces'.flatMap (fun p => p.1 ++ new) ++ last' = c :: (pieces.flatMap (fun p => p.1 ++ new) ++ last) := by
  cases h with
  | last none =>
    refine ⟨[], c :: value, .last fun i => ?_, fun _ => rfl⟩
    cases i with
    | zero => exact hfirst
    | succ i => exact fun h => none i (standsAt_succ_iff.mp h)
  | @next _ before found rest pieces _ split same first more =>
    refine ⟨(c :: before, found) :: pieces, last, .next (by rw [split]; rfl) same (fun i hi => ?_) more, fun _ => rfl⟩
    cases i with
    | zero => exact hfirst
    | succ i => exact fun h => first i (Nat.lt_of_succ_lt_succ hi) (standsAt_succ_iff.mp h)

/-- There is one way to divide a value. -/
theorem unique (h : Divided old value pieces last) (h' : Divided old value pieces' last') :
    pieces' = pieces ∧ last' = last := by
  induction h generalizing pieces' last' with
  | last none =>
    cases h' with
    | last _ => exact ⟨rfl, rfl⟩
    | next split same _ _ => exact absurd ⟨_, _, _, split, rfl, same⟩ (none _)
  | @next value before found rest pieces last split same first more ih =>
    cases h' with
    | last none => exact absurd ⟨_, _, _, split, rfl, same⟩ (none _)
    | @next _ before' found' rest' pieces' _ split' same' first' more' =>
      have hle : before'.length ≤ before.length :=
        Nat.le_of_not_lt fun hlt => first' _ hlt ⟨before, found, rest, split, rfl, same⟩
      have hge : before.length ≤ before'.length :=
        Nat.le_of_not_lt fun hlt => first _ hlt ⟨before', found', rest', split', rfl, same'⟩
      obtain ⟨rfl, hsplit⟩ := List.append_inj (split ▸ split' : _ ++ _ = _ ++ _) (by omega)
      obtain ⟨rfl, rfl⟩ := List.append_inj hsplit (same.length_eq.trans same'.length_eq.symm)
      obtain ⟨rfl, rfl⟩ := ih more'
      exact ⟨rfl, rfl⟩

/-- Each occurrence has at least one character, so there are no more of them than characters. -/
theorem length_le (hold : old ≠ []) (h : Divided old value pieces last) : pieces.length ≤ value.length := by
  induction h with
  | last _ => exact Nat.zero_le _
  | next split same _ _ ih =>
    have hfound := same.length_eq
    have hpos := List.length_pos_iff.mpr hold
    rw [split, List.length_append, List.length_append, List.length_cons]
    omega

end Divided

/-! ## What is replaced -/

theorem replace_plain {old : String} {p : Char} {ps : List Char} (value new : String) (hold : old.toList = p :: ps)
    (hp : p ≠ '*') : replace value old new = String.ofList (replaceFrom p ps new.toList value.toList) := by
  unfold replace
  rw [hold]
  split <;> simp_all

theorem replace_asterisk {old : String} {pattern : List Char} (value new : String) (hold : old.toList = '*' :: pattern)
    (hpattern : pattern ≠ []) : replace value old new =
      ((afterFirst? pattern value.toList).map fun rest => new ++ String.ofList rest).getD value := by
  unfold replace
  rw [hold]
  split
  · rename_i heq
    cases heq
  · rename_i heq
    exact absurd (List.cons.inj heq).2 hpattern
  · rename_i heq
    obtain ⟨-, rfl⟩ := List.cons.inj heq
    cases afterFirst? pattern value.toList <;> rfl
  · rename_i hstar heq
    exact absurd (List.cons.inj heq).1.symm hstar

/-- A value can be divided, and replacing is putting the new text in the place of every occurrence. -/
theorem exists_divided (p : Char) (ps new value : List Char) : ∃ pieces last, Divided (p :: ps) value pieces last ∧
    replaceFrom p ps new value = pieces.flatMap (fun q => q.1 ++ new) ++ last := by
  fun_induction replaceFrom p ps new value with
  | case1 =>
    refine ⟨[], [], .last ?_, rfl⟩
    rintro i ⟨before, found, rest, hsplit, -, hsame⟩
    have hlength := congrArg List.length hsplit
    have hfound := hsame.length_eq
    simp only [List.length_append, List.length_nil, List.length_cons] at hlength hfound
    omega
  | case2 c cs rest hafter ih =>
    obtain ⟨found, hsplit, hsame⟩ := afterIgnoringCase?_eq_some_iff.mp hafter
    obtain ⟨pieces, last, hdivided, hreplaced⟩ := ih
    refine ⟨([], found) :: pieces, last, .next hsplit hsame (fun i hi => absurd hi (Nat.not_lt_zero i)) hdivided, ?_⟩
    rw [hreplaced, List.flatMap_cons, List.nil_append, List.append_assoc]
  | case3 c cs hafter ih =>
    obtain ⟨pieces, last, hdivided, hreplaced⟩ := ih
    have hfirst : ¬ StandsAt (p :: ps) (c :: cs) 0 := by simp [standsAt_zero_iff, hafter]
    obtain ⟨pieces', last', hdivided', hjoined⟩ := hdivided.cons hfirst
    exact ⟨pieces', last', hdivided', by rw [hreplaced, hjoined]⟩

/-! ## The first occurrence with what stands before it -/

/-- What is left behind the first occurrence. -/
theorem exists_of_afterFirst? {pattern rest : List Char} (h : afterFirst? pattern value = some rest) :
    ∃ before found, value = before ++ (found ++ rest) ∧ SameLetters found pattern ∧
      ∀ i < before.length, ¬ StandsAt pattern value i := by
  induction value with
  | nil =>
    obtain ⟨found, hsplit, hsame⟩ := afterIgnoringCase?_eq_some_iff.mp h
    exact ⟨[], found, hsplit, hsame, fun i hi => absurd hi (Nat.not_lt_zero i)⟩
  | cons c cs ih =>
    rw [afterFirst?] at h
    cases hafter : afterIgnoringCase? pattern (c :: cs) with
    | some after =>
      simp only [hafter, Option.some.injEq] at h
      obtain ⟨found, hsplit, hsame⟩ := afterIgnoringCase?_eq_some_iff.mp (h ▸ hafter)
      exact ⟨[], found, hsplit, hsame, fun i hi => absurd hi (Nat.not_lt_zero i)⟩
    | none =>
      simp only [hafter] at h
      obtain ⟨before, found, rfl, hsame, hfirst⟩ := ih h
      refine ⟨c :: before, found, rfl, hsame, fun i hi => ?_⟩
      cases i with
      | zero => simp [standsAt_zero_iff, hafter]
      | succ i => exact fun hstands => hfirst i (Nat.lt_of_succ_lt_succ hi) (standsAt_succ_iff.mp hstands)

theorem afterFirst?_eq_none_iff {pattern : List Char} (hpattern : pattern ≠ []) :
    afterFirst? pattern value = none ↔ ∀ i, ¬ StandsAt pattern value i := by
  constructor
  · induction value with
    | nil =>
      rintro - i ⟨before, found, rest, hsplit, -, hsame⟩
      obtain ⟨-, hrest⟩ := List.append_eq_nil_iff.mp hsplit.symm
      obtain ⟨rfl, -⟩ := List.append_eq_nil_iff.mp hrest
      exact hpattern (List.length_eq_zero_iff.mp hsame.length_eq.symm)
    | cons c cs ih =>
      intro h i
      rw [afterFirst?] at h
      cases hafter : afterIgnoringCase? pattern (c :: cs) with
      | some after => simp [hafter] at h
      | none =>
        simp only [hafter] at h
        cases i with
        | zero => simp [standsAt_zero_iff, hafter]
        | succ i => exact fun hstands => ih h i (standsAt_succ_iff.mp hstands)
  · intro h
    cases hfirst : afterFirst? pattern value with
    | none => rfl
    | some rest =>
      obtain ⟨before, found, hsplit, hsame, -⟩ := exists_of_afterFirst? hfirst
      exact absurd ⟨before, found, rest, hsplit, rfl, hsame⟩ (h _)

/-- No shorter beginning of a value ends in an occurrence than the one up to the first occurrence. -/
theorem length_le_of_endsIn {pattern before found head : List Char} (hsame : SameLetters found pattern)
    (hfirst : ∀ i < before.length, ¬ StandsAt pattern value i) (hhead : head <+: value)
    (hends : EndsIn pattern head) : (before ++ found).length ≤ head.length := by
  obtain ⟨after, hvalue⟩ := hhead
  obtain ⟨before', found', rfl, hsame'⟩ := hends
  have hle : before.length ≤ before'.length := by
    refine Nat.le_of_not_lt fun hlt => hfirst _ hlt ⟨before', found', after, ?_, rfl, hsame'⟩
    rw [← hvalue, List.append_assoc]
  have hfound := hsame.length_eq.trans hsame'.length_eq.symm
  rw [List.length_append, List.length_append]
  omega

/-! ## The same on bytes -/

namespace Bytewise

/-- Does the pattern stand at position `i`, up to case, and does a character start there? -/
def standsAt (bytes pattern : List UInt8) (i : Nat) : Bool :=
  isBoundary bytes i && sameBytes ((bytes.drop i).take pattern.length) pattern

/-- The first position from `start` on at which the pattern stands. -/
def find? (bytes pattern : List UInt8) (start : Nat) : Option Nat :=
  if bytes.length < pattern.length then none
  else (List.range' start (bytes.length - pattern.length + 1 - start)).find? (standsAt bytes pattern)

/-- The bytes from position `i` to position `j`. There are none if one of the cuts is inside a character. -/
def slice? (bytes : List UInt8) (i j : Nat) : Option (List UInt8) :=
  if i ≤ j && isBoundary bytes i && isBoundary bytes j then some ((bytes.take j).drop i) else none

/-- Replace every occurrence from `start` on, in at most so many rounds. -/
def replaceFrom? (bytes pattern new : List UInt8) : (rounds start : Nat) → Option (List UInt8)
  | 0, _ => none
  | rounds + 1, start =>
    match find? bytes pattern start with
    | none => slice? bytes start bytes.length
    | some i => do
      let before ← slice? bytes start i
      let rest ← replaceFrom? bytes pattern new rounds (i + pattern.length)
      return before ++ (new ++ rest)

/-- Replace `old` in a value, in at most so many rounds. After an asterisk (byte 42), `old` also takes everything
before its first occurrence. -/
def replace? (rounds : Nat) (value old new : List UInt8) : Option (List UInt8) :=
  match old with
  | [] => some value
  | b :: needle =>
    if b == 42 then
      if needle.isEmpty then some value
      else
        match find? value needle 0 with
        | some i => (slice? value (i + needle.length) value.length).map (new ++ ·)
        | none => some value
    else replaceFrom? value old new rounds 0

theorem le_of_isBoundary {bytes : List UInt8} {i : Nat} (h : isBoundary bytes i = true) : i ≤ bytes.length := by
  unfold isBoundary at h
  by_cases hin : i < bytes.length
  · exact Nat.le_of_lt hin
  · simp only [List.getElem?_eq_none (Nat.le_of_not_lt hin), Bool.or_eq_true, beq_iff_eq] at h
    omega

theorem le_of_standsAt {bytes pattern : List UInt8} {i : Nat} (h : standsAt bytes pattern i = true) :
    i + pattern.length ≤ bytes.length := by
  simp only [standsAt, Bool.and_eq_true, sameBytes, beq_iff_eq] at h
  have hin := le_of_isBoundary h.1
  have hlength := congrArg List.length h.2
  simp only [List.length_map, List.length_take, List.length_drop] at hlength
  omega

theorem find?_eq_some_iff {bytes pattern : List UInt8} {start i : Nat} : find? bytes pattern start = some i ↔
    standsAt bytes pattern i = true ∧ start ≤ i ∧ ∀ j, start ≤ j → j < i → standsAt bytes pattern j = false := by
  unfold find?
  split
  · simp only [reduceCtorEq, false_iff, not_and]
    intro hstands
    have := le_of_standsAt hstands
    omega
  · rw [List.find?_range'_eq_some, List.mem_range'_1]
    simp only [Bool.not_eq_eq_eq_not, Bool.not_true]
    constructor
    · rintro ⟨hstands, ⟨hstart, -⟩, hfirst⟩
      exact ⟨hstands, hstart, hfirst⟩
    · rintro ⟨hstands, hstart, hfirst⟩
      have := le_of_standsAt hstands
      exact ⟨hstands, ⟨hstart, by omega⟩, hfirst⟩

theorem find?_eq_none {bytes pattern : List UInt8} {start : Nat}
    (h : ∀ i, start ≤ i → standsAt bytes pattern i = false) : find? bytes pattern start = none := by
  cases hfind : find? bytes pattern start with
  | none => rfl
  | some i =>
    obtain ⟨hstands, hstart, -⟩ := find?_eq_some_iff.mp hfind
    rw [h i hstart] at hstands
    cases hstands

/-! ### Positions of characters -/

theorem standsAt_utf8_iff {old cs : List Char} {i : Nat} : standsAt (utf8 cs) (utf8 old) i = true ↔
    ∃ before found rest, cs = before ++ (found ++ rest) ∧ i = (utf8 before).length ∧ SameLetters found old := by
  rw [standsAt, Bool.and_eq_true, isBoundary_utf8_iff]
  constructor
  · rintro ⟨⟨before, tail, rfl, rfl⟩, hsame⟩
    rw [utf8_append, List.drop_left, sameBytes_take_iff] at hsame
    obtain ⟨found, rest, rfl, hsame⟩ := hsame
    exact ⟨before, found, rest, rfl, rfl, hsame⟩
  · rintro ⟨before, found, rest, rfl, rfl, hsame⟩
    refine ⟨⟨before, _, rfl, rfl⟩, ?_⟩
    rw [utf8_append, List.drop_left, sameBytes_take_iff]
    exact ⟨found, rest, rfl, hsame⟩

/-- Behind whole characters the positions of the pattern are those among the characters that follow. -/
theorem standsAt_append_iff {done cs : List Char} {i : Nat} (hi : (utf8 done).length ≤ i) :
    standsAt (utf8 (done ++ cs)) (utf8 old) i = true ↔
      ∃ before, (∃ found rest, cs = before ++ (found ++ rest) ∧ SameLetters found old) ∧
        i = (utf8 (done ++ before)).length := by
  rw [standsAt_utf8_iff]
  constructor
  · rintro ⟨front, found, rest, hsplit, rfl, hsame⟩
    obtain ⟨before, rfl, rfl⟩ | ⟨back, rfl, hrest⟩ := List.append_eq_append_iff.mp hsplit
    · exact ⟨before, ⟨found, rest, rfl, hsame⟩, rfl⟩
    · -- the occurrence starts in `done`, so at its end
      rw [utf8_append, List.length_append] at hi
      have hback : back = [] := utf8_eq_nil (List.length_eq_zero_iff.mp (by omega))
      subst hback
      exact ⟨[], ⟨found, rest, hrest.symm, hsame⟩, by simp⟩
  · rintro ⟨before, ⟨found, rest, rfl, hsame⟩, rfl⟩
    exact ⟨done ++ before, found, rest, by simp, rfl, hsame⟩

/-- The pattern is found where its first occurrence starts. -/
theorem find?_first {before found rest : List Char} (done : List Char) (hsame : SameLetters found old)
    (hfirst : ∀ i < before.length, ¬ StandsAt old (before ++ (found ++ rest)) i) :
    find? (utf8 (done ++ (before ++ (found ++ rest)))) (utf8 old) (utf8 done).length =
      some (utf8 (done ++ before)).length := by
  have hstart : (utf8 done).length ≤ (utf8 (done ++ before)).length := by simp
  refine find?_eq_some_iff.mpr ⟨?_, hstart, fun j hstart' hlt => ?_⟩
  · exact (standsAt_append_iff hstart).mpr ⟨before, ⟨found, rest, rfl, hsame⟩, rfl⟩
  · rw [← Bool.not_eq_true, standsAt_append_iff hstart']
    rintro ⟨before', ⟨found', rest', hsplit, hsame'⟩, rfl⟩
    refine hfirst before'.length ?_ ⟨before', found', rest', hsplit, rfl, hsame'⟩
    obtain ⟨back, rfl, -⟩ | ⟨back, rfl, -⟩ := List.append_eq_append_iff.mp hsplit
    · -- at or behind the first occurrence
      simp only [utf8_append, List.length_append] at hlt
      omega
    · have hback : back ≠ [] := by
        rintro rfl
        simp at hlt
      have := List.length_pos_iff.mpr hback
      rw [List.length_append]
      omega

theorem find?_none {cs : List Char} (done : List Char) (h : ∀ i, ¬ StandsAt old cs i) :
    find? (utf8 (done ++ cs)) (utf8 old) (utf8 done).length = none := by
  apply find?_eq_none
  intro i hi
  rw [← Bool.not_eq_true, standsAt_append_iff hi]
  rintro ⟨before, ⟨found, rest, hsplit, hsame⟩, -⟩
  exact h before.length ⟨before, found, rest, hsplit, rfl, hsame⟩

/-- Cuts between characters succeed. -/
theorem slice?_utf8 (a b c : List Char) :
    slice? (utf8 (a ++ (b ++ c))) (utf8 a).length (utf8 (a ++ b)).length = some (utf8 b) := by
  have hstart := isBoundary_utf8 a (b ++ c)
  have hstop := isBoundary_utf8 (a ++ b) c
  rw [List.append_assoc] at hstop
  have hbytes : ((utf8 (a ++ (b ++ c))).take (utf8 (a ++ b)).length).drop (utf8 a).length = utf8 b := by
    rw [← List.append_assoc, utf8_append (a ++ b) c, List.take_left, utf8_append, List.drop_left]
  rw [slice?, hstart, hstop, Bool.and_true, Bool.and_true, if_pos (by simp), hbytes]

/-- A round for each occurrence and one more are enough. -/
theorem replaceFrom?_divided {cs last : List Char} {pieces : List (List Char × List Char)}
    (h : Divided old cs pieces last) (new done : List Char) {rounds : Nat} (hrounds : pieces.length < rounds) :
    replaceFrom? (utf8 (done ++ cs)) (utf8 old) (utf8 new) rounds (utf8 done).length =
      some (utf8 (pieces.flatMap (fun q => q.1 ++ new) ++ last)) := by
  induction h generalizing done rounds with
  | @last cs none =>
    cases rounds with
    | zero => cases hrounds
    | succ rounds =>
      have hslice := slice?_utf8 done cs []
      rw [List.append_nil] at hslice
      rw [replaceFrom?, find?_none done none]
      exact hslice
  | @next cs before found rest pieces last split same first more ih =>
    subst split
    cases rounds with
    | zero => cases hrounds
    | succ rounds =>
      have hnext := ih (done ++ (before ++ found)) (Nat.lt_of_succ_lt_succ hrounds)
      have hposition : (utf8 (done ++ before)).length + (utf8 old).length =
          (utf8 (done ++ (before ++ found))).length := by
        rw [← length_utf8_of_same same]
        simp [Nat.add_assoc]
      have hall : done ++ (before ++ found) ++ rest = done ++ (before ++ (found ++ rest)) := by simp
      rw [hall] at hnext
      rw [replaceFrom?, find?_first done same first]
      simp only [slice?_utf8, hposition, hnext]
      simp

/-- What follows an asterisk is found at its first occurrence, and what is behind that is kept. -/
theorem replace?_asterisk {rounds : Nat} {value pattern new : List Char} (hpattern : pattern ≠ []) :
    replace? rounds (utf8 value) (utf8 ('*' :: pattern)) (utf8 new) =
      some (utf8 (((afterFirst? pattern value).map (new ++ ·)).getD value)) := by
  have hneedle : (utf8 pattern).isEmpty = false := by
    rw [List.isEmpty_eq_false_iff]
    exact fun h => hpattern (utf8_eq_nil h)
  have hold : utf8 ('*' :: pattern) = 42 :: utf8 pattern := rfl
  rw [hold, replace?, if_pos (by rfl), hneedle, if_neg (by simp)]
  cases hfirst : afterFirst? pattern value with
  | none =>
    have hfind := find?_none [] ((afterFirst?_eq_none_iff hpattern).mp hfirst)
    rw [List.nil_append, utf8_nil, List.length_nil] at hfind
    simp only [hfind, Option.map_none, Option.getD_none]
  | some rest =>
    obtain ⟨before, found, rfl, hsame, hnone⟩ := exists_of_afterFirst? hfirst
    have hfind := find?_first [] hsame hnone
    rw [List.nil_append, utf8_nil, List.length_nil, List.nil_append] at hfind
    have hposition : (utf8 before).length + (utf8 pattern).length = (utf8 (before ++ found)).length := by
      rw [← length_utf8_of_same hsame]
      simp
    have hslice := slice?_utf8 (before ++ found) rest []
    rw [List.append_nil, List.append_assoc, ← List.append_assoc before found rest] at hslice
    simp only [hfind, hposition]
    rw [← List.append_assoc before found rest, hslice]
    simp

/-- Bytes that start with an asterisk are those of a text that starts with one. -/
theorem asterisk_of_utf8 {c : Char} {cs : List Char} {bytes : List UInt8} (h : utf8 (c :: cs) = 42 :: bytes) :
    c = '*' := by
  have hprefix : ['*'] <+: c :: cs := utf8_isPrefix ⟨bytes, by rw [h]; rfl⟩
  exact (List.cons_prefix_cons.mp hprefix).1.symm

/-- **The bytes of a replacement.** The search on bytes finds the same occurrences, and every cut is made between two
characters. -/
theorem replace?_eq (value old new : String) {rounds : Nat} (hrounds : (toBytes value).length < rounds) :
    replace? rounds (toBytes value) (toBytes old) (toBytes new) = some (toBytes (replace value old new)) := by
  simp only [toBytes_eq_utf8] at hrounds ⊢
  cases hold : old.toList with
  | nil =>
    unfold replace
    rw [hold]
    rfl
  | cons p ps =>
    by_cases hp : p = '*'
    · subst hp
      by_cases hpattern : ps = []
      · subst hpattern
        unfold replace
        rw [hold]
        rfl
      · rw [replace?_asterisk hpattern, replace_asterisk value new hold hpattern]
        cases afterFirst? ps value.toList <;> simp
    · obtain ⟨pieces, last, hdivided, hreplaced⟩ := exists_divided p ps new.toList value.toList
      have hcount := hdivided.length_le (List.cons_ne_nil p ps)
      have hbytes := length_le_length_utf8 value.toList
      have henough : pieces.length < rounds := by omega
      have hrun := replaceFrom?_divided hdivided new.toList [] henough
      rw [List.nil_append, utf8_nil, List.length_nil] at hrun
      rw [replace_plain value new hold hp, String.toList_ofList, hreplaced, ← hrun]
      cases hfirst : utf8 (p :: ps) with
      | nil => exact absurd (utf8_eq_nil hfirst) (List.cons_ne_nil p ps)
      | cons b needle =>
        have hb : b ≠ 42 := by
          rintro rfl
          exact hp (asterisk_of_utf8 hfirst)
        rw [replace?, if_neg (by simpa using hb)]

end Bytewise

/-- **Replacement takes the leftmost occurrences.** A value is divided in one way into texts and the occurrences
between them, each the first one behind the one before it, and in the result the new text stands for every occurrence;
a value without occurrence stays. After an asterisk the shortest beginning of the value that ends in an occurrence is
replaced, and again a value without occurrence stays. A search that goes by bytes gives the same text: it ends after at
most one round for each byte and one more, and never cuts inside a character. -/
theorem replace_leftmost (value new : String) :
    (∀ old : String, old ≠ "" → old.toList.head? ≠ some '*' →
      (∃ pieces last, Divided old.toList value.toList pieces last ∧
        (∀ pieces' last', Divided old.toList value.toList pieces' last' → pieces' = pieces ∧ last' = last) ∧
        value.toList = pieces.flatMap (fun p => p.1 ++ p.2) ++ last ∧
        (∀ p ∈ pieces, SameLetters p.2 old.toList) ∧
        (replace value old new).toList = pieces.flatMap (fun p => p.1 ++ new.toList) ++ last) ∧
      ((∀ i, ¬ StandsAt old.toList value.toList i) → replace value old new = value)) ∧
    (∀ pattern : String, pattern ≠ "" →
      ((∃ i, StandsAt pattern.toList value.toList i) →
        ∃ head rest, value.toList = head ++ rest ∧ EndsIn pattern.toList head ∧
          (∀ head', head' <+: value.toList → EndsIn pattern.toList head' → head.length ≤ head'.length) ∧
          (replace value ("*" ++ pattern) new).toList = new.toList ++ rest) ∧
      ((∀ i, ¬ StandsAt pattern.toList value.toList i) → replace value ("*" ++ pattern) new = value)) ∧
    ∀ (old : String) (rounds : Nat), (toBytes value).length < rounds →
      Bytewise.replace? rounds (toBytes value) (toBytes old) (toBytes new) =
        some (toBytes (replace value old new)) := by
  refine ⟨fun old hold hfirst => ?_, fun pattern hpattern => ?_, fun old rounds => Bytewise.replace?_eq value old new⟩
  · obtain ⟨p, ps, hchars⟩ := List.exists_cons_of_ne_nil (mt String.toList_eq_nil_iff.mp hold)
    have hp : p ≠ '*' := by
      rintro rfl
      exact hfirst (by rw [hchars]; rfl)
    obtain ⟨pieces, last, hdivided, hreplaced⟩ := exists_divided p ps new.toList value.toList
    rw [hchars, replace_plain value new hchars hp, String.toList_ofList, hreplaced]
    refine ⟨⟨pieces, last, hdivided, fun _ _ => hdivided.unique, hdivided.joined, hdivided.same, rfl⟩, fun hnone => ?_⟩
    obtain ⟨rfl, rfl⟩ := (Divided.last hnone).unique hdivided
    exact String.ofList_toList
  · have hne : pattern.toList ≠ [] := fun hnil => hpattern (String.toList_eq_nil_iff.mp hnil)
    have hold : ("*" ++ pattern).toList = '*' :: pattern.toList := String.toList_append
    rw [replace_asterisk value new hold hne]
    cases hafter : afterFirst? pattern.toList value.toList with
    | none =>
      have hnone := (afterFirst?_eq_none_iff hne).mp hafter
      exact ⟨fun ⟨i, hi⟩ => absurd hi (hnone i), fun _ => rfl⟩
    | some rest =>
      obtain ⟨before, found, hsplit, hsame, hfirst⟩ := exists_of_afterFirst? hafter
      refine ⟨fun _ => ⟨before ++ found, rest, ?_, ⟨before, found, rfl, hsame⟩, fun head' => ?_, ?_⟩, fun hnone => ?_⟩
      · rw [hsplit, List.append_assoc]
      · exact length_le_of_endsIn hsame hfirst
      · simp
      · exact absurd ⟨before, found, rest, hsplit, rfl, hsame⟩ (hnone _)

/-- Of two occurrences that overlap the left one is taken, and after an asterisk what stands before it too. -/
theorem replace_leftmost_overlapping :
    "aÑa" ≠ "" ∧ "aÑa".toList.head? ≠ some '*' ∧ StandsAt "aÑa".toList "éAÑaÑA".toList 1 ∧
      StandsAt "aÑa".toList "éAÑaÑA".toList 3 ∧ (toBytes "éAÑaÑA").length < 10 ∧
    (∃ pieces last, Divided "aÑa".toList "éAÑaÑA".toList pieces last ∧
      "éxÑA".toList = pieces.flatMap (fun p => p.1 ++ "x".toList) ++ last) ∧
    (∃ head rest, "éAÑaÑA".toList = head ++ rest ∧ EndsIn "aÑa".toList head ∧ "xÑA".toList = "x".toList ++ rest) ∧
    Bytewise.replace? 10 (toBytes "éAÑaÑA") (toBytes "aÑa") (toBytes "x") = some (toBytes "éxÑA") := by
  have hleft : StandsAt "aÑa".toList "éAÑaÑA".toList 1 :=
    ⟨['é'], ['A', 'Ñ', 'a'], ['Ñ', 'A'], by decide, rfl, by decide⟩
  have hright : StandsAt "aÑa".toList "éAÑaÑA".toList 3 :=
    ⟨['é', 'A', 'Ñ'], ['a', 'Ñ', 'A'], [], by decide, rfl, by decide⟩
  have hrounds : (toBytes "éAÑaÑA").length < 10 := by decide +kernel
  have hplain : replace "éAÑaÑA" "aÑa" "x" = "éxÑA" := by decide +kernel
  have hasterisk : replace "éAÑaÑA" ("*" ++ "aÑa") "x" = "xÑA" := by decide +kernel
  obtain ⟨hdivided, hbeginning, hbytes⟩ := replace_leftmost "éAÑaÑA" "x"
  obtain ⟨⟨pieces, last, hpieces, -, -, -, hjoined⟩, -⟩ := hdivided "aÑa" (by decide) (by decide)
  obtain ⟨head, rest, hsplit, hends, -, hrest⟩ := (hbeginning "aÑa" (by decide)).1 ⟨1, hleft⟩
  rw [hplain] at hjoined
  rw [hasterisk] at hrest
  refine ⟨by decide, by decide, hleft, hright, hrounds, ⟨pieces, last, hpieces, hjoined⟩,
    ⟨head, rest, hsplit, hends, hrest⟩, ?_⟩
  rw [hbytes "aÑa" 10 hrounds, hplain]

end BatchShell.Expansion
