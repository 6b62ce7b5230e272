import BatchShell.Text.Utf8

/-!
# Characters and the bytes that store them

A text is stored in bytes, one to four for each character, and a search that goes by bytes finds positions among them.
Here it is said what such a position has to do with the characters.

* `isBoundary_utf8_iff`: the positions at which the bytes may be cut are those behind a number of whole characters.
* `cutBytes?_eq_none_iff`: at all other positions characters cannot be cut.
* `utf8_isPrefix`: bytes that start with the bytes of some characters are those of a text that starts with these
  characters.
* `sameBytes_take_iff`: bytes that are equal to a pattern up to the case of `A` to `Z` are those of characters
  equal to it up to case. So they end where a character ends.
-/
namespace BatchShell.Text

variable {a b cs ps : List Char}

/-- The bytes of characters. -/
def utf8 (cs : List Char) : List UInt8 := cs.flatMap String.utf8EncodeChar

@[simp] theorem utf8_nil : utf8 [] = [] := rfl

@[simp] theorem utf8_cons (c : Char) (cs : List Char) : utf8 (c :: cs) = String.utf8EncodeChar c ++ utf8 cs := rfl

@[simp] theorem utf8_append (a b : List Char) : utf8 (a ++ b) = utf8 a ++ utf8 b := List.flatMap_append

theorem utf8_eq_nil (h : utf8 cs = []) : cs = [] := by
  cases cs with
  | nil => rfl
  | cons c cs => simp at h

theorem length_le_length_utf8 (cs : List Char) : cs.length ≤ (utf8 cs).length := by
  induction cs with
  | nil => exact Nat.le_refl _
  | cons c cs ih =>
    have hpos := c.utf8Size_pos
    rw [utf8_cons, List.length_append, String.length_utf8EncodeChar, List.length_cons]
    omega

theorem toBytes_eq_utf8 (s : String) : toBytes s = utf8 s.toList := by
  have hbytes : s.toByteArray = (utf8 s.toList).toByteArray := String.utf8Encode_toList.symm
  rw [toBytes, encode, String.toUTF8_eq_toByteArray, hbytes, List.toList_data_toByteArray]

theorem utf8_isPrefix (h : utf8 a <+: utf8 b) : a <+: b := by
  obtain ⟨rest, hrest⟩ := h
  apply List.isPrefix_of_utf8Encode_append_eq_utf8Encode rest.toByteArray
  rw [List.utf8Encode, List.utf8Encode, ← List.toByteArray_append]
  exact congrArg List.toByteArray hrest

/-! ## Boundaries -/

/-- May the bytes be cut at position `i`? Not before a byte that continues a character, nor beyond the end. -/
def isBoundary (bytes : List UInt8) (i : Nat) : Bool :=
  i == 0 ||
    match bytes[i]? with
    | some b => !isContinuation b
    | none => i == bytes.length

theorem isContinuation_iff {b : UInt8} : isContinuation b = true ↔ 128 ≤ b.toNat ∧ b.toNat < 192 := by
  simp only [isContinuation, Bool.and_eq_true, decide_eq_true_eq, UInt8.le_iff_toNat_le]
  have hlow : (0x80 : UInt8).toNat = 128 := rfl
  have hhigh : (0xBF : UInt8).toNat = 191 := rfl
  omega

theorem isContinuation_ofNat {n : Nat} (h : n < 256) :
    isContinuation (UInt8.ofNat n) = true ↔ 128 ≤ n ∧ n < 192 := by
  rw [isContinuation_iff, UInt8.toNat_ofNat', Nat.mod_eq_of_lt h]

theorem isContinuation_lowBits (n : Nat) : isContinuation (UInt8.ofNat (n % 64 + 128)) = true := by
  rw [isContinuation_ofNat (by omega)]
  omega

/-- The first byte of a character continues none, and all others do. -/
theorem exists_utf8EncodeChar (c : Char) : ∃ first more, String.utf8EncodeChar c = first :: more ∧
    isContinuation first = false ∧ (128 ≤ c.val.toNat → 128 ≤ first.toNat) ∧
      ∀ b ∈ more, isContinuation b = true := by
  have hchar : c.val.toNat < 1114112 := by
    have hvalid := c.valid
    unfold UInt32.isValidChar Nat.isValidChar at hvalid
    omega
  unfold String.utf8EncodeChar
  generalize c.val.toNat = v at hchar ⊢
  -- the first byte says how many follow: it is below 128, or from 192, 224 or 240 on
  have hfirst : ∀ n < 256, (n < 128 ∨ 192 ≤ n) → (128 ≤ v → 128 ≤ n) →
      isContinuation (UInt8.ofNat n) = false ∧ (128 ≤ v → 128 ≤ (UInt8.ofNat n).toNat) := by
    intro n hn hrange hlarge
    rw [← Bool.not_eq_true, isContinuation_ofNat hn, UInt8.toNat_ofNat', Nat.mod_eq_of_lt hn]
    exact ⟨by omega, hlarge⟩
  have hmore := isContinuation_lowBits
  dsimp only
  split
  · obtain ⟨hcontinues, hlarge⟩ := hfirst v (by omega) (by omega) (by omega)
    exact ⟨_, _, rfl, hcontinues, hlarge, List.forall_mem_nil _⟩
  · split
    · obtain ⟨hcontinues, hlarge⟩ := hfirst (v / 64 % 32 + 192) (by omega) (by omega) (by omega)
      exact ⟨_, _, rfl, hcontinues, hlarge, by simp only [List.forall_mem_singleton, hmore]⟩
    · split
      · obtain ⟨hcontinues, hlarge⟩ := hfirst (v / 4096 % 16 + 224) (by omega) (by omega) (by omega)
        refine ⟨_, _, rfl, hcontinues, hlarge, ?_⟩
        simp only [List.mem_cons, List.not_mem_nil, or_false, forall_eq_or_imp, forall_eq, hmore, and_self]
      · obtain ⟨hcontinues, hlarge⟩ := hfirst (v / 262144 % 8 + 240) (by omega) (by omega) (by omega)
        refine ⟨_, _, rfl, hcontinues, hlarge, ?_⟩
        simp only [List.mem_cons, List.not_mem_nil, or_false, forall_eq_or_imp, forall_eq, hmore, and_self]

/-- Whole characters end at a boundary. -/
theorem isBoundary_utf8 (a b : List Char) : isBoundary (utf8 (a ++ b)) (utf8 a).length = true := by
  unfold isBoundary
  rw [utf8_append, List.getElem?_append_right (Nat.le_refl _), Nat.sub_self]
  cases b with
  | nil => simp
  | cons c b =>
    obtain ⟨first, more, hbytes, hfirst, -⟩ := exists_utf8EncodeChar c
    simp [hbytes, hfirst]

/-- At a boundary whole characters end. -/
theorem exists_of_isBoundary {i : Nat} (h : isBoundary (utf8 cs) i = true) :
    ∃ a b, cs = a ++ b ∧ i = (utf8 a).length := by
  induction cs generalizing i with
  | nil => exact ⟨[], [], rfl, by simpa [isBoundary] using h⟩
  | cons c cs ih =>
    obtain ⟨first, more, hbytes, -, -, hmore⟩ := exists_utf8EncodeChar c
    have hall : utf8 (c :: cs) = first :: (more ++ utf8 cs) := by rw [utf8_cons, hbytes, List.cons_append]
    rcases Nat.eq_zero_or_pos i with rfl | hpos
    · exact ⟨[], c :: cs, rfl, rfl⟩
    · have hzero : (i == 0) = false := beq_eq_false_iff_ne.mpr (by omega)
      unfold isBoundary at h
      rw [hall, hzero, Bool.false_or, List.getElem?_cons, if_neg (by omega)] at h
      by_cases hin : i - 1 < more.length
      · -- inside the character every byte continues it
        rw [List.getElem?_append_left hin, List.getElem?_eq_getElem hin] at h
        simp [hmore _ (List.getElem_mem hin)] at h
      · rw [List.getElem?_append_right (by omega)] at h
        have hrest : isBoundary (utf8 cs) (i - 1 - more.length) = true := by
          unfold isBoundary
          cases hbyte : (utf8 cs)[i - 1 - more.length]? with
          | some byte => simpa [hbyte] using Or.inr (by simpa [hbyte] using h)
          | none =>
            simp only [hbyte, List.length_cons, List.length_append, beq_iff_eq] at h
            have hlast : i - 1 - more.length = (utf8 cs).length := by omega
            simp [hlast]
        obtain ⟨a, b, rfl, hlength⟩ := ih hrest
        refine ⟨c :: a, b, rfl, ?_⟩
        rw [utf8_cons, hbytes, List.length_append, ← hlength, List.length_cons]
        omega

theorem isBoundary_utf8_iff {i : Nat} :
    isBoundary (utf8 cs) i = true ↔ ∃ a b, cs = a ++ b ∧ i = (utf8 a).length := by
  constructor
  · exact exists_of_isBoundary
  · rintro ⟨a, b, rfl, rfl⟩
    exact isBoundary_utf8 a b

/-! ## Cuts -/

@[simp] theorem cutBytes?_zero (cs : List Char) : cutBytes? 0 cs = some ([], cs) := by
  cases cs <;> rfl

theorem cutBytes?_append (a b : List Char) : cutBytes? (utf8 a).length (a ++ b) = some (a, b) := by
  induction a with
  | nil => exact cutBytes?_zero b
  | cons c a ih =>
    have hpos := c.utf8Size_pos
    have hlength : (utf8 (c :: a)).length = c.utf8Size + (utf8 a).length := by
      rw [utf8_cons, List.length_append, String.length_utf8EncodeChar]
    rw [hlength, List.cons_append, cutBytes?, if_neg (by omega), if_neg (by omega), Nat.add_sub_cancel_left, ih]
    rfl

theorem of_cutBytes? {n : Nat} (h : cutBytes? n cs = some (a, b)) : cs = a ++ b ∧ n = (utf8 a).length := by
  induction cs generalizing n a with
  | nil =>
    rw [cutBytes?, Option.ite_none_right_eq_some] at h
    obtain ⟨rfl, ⟨⟩⟩ := h
    exact ⟨rfl, rfl⟩
  | cons c cs ih =>
    unfold cutBytes? at h
    split at h
    · cases h
      exact ⟨rfl, by assumption⟩
    · rw [Option.ite_none_left_eq_some, Option.map_eq_some_iff] at h
      obtain ⟨hfits, ⟨start, rest⟩, hcut, ⟨⟩⟩ := h
      obtain ⟨rfl, hn⟩ := ih hcut
      refine ⟨rfl, ?_⟩
      rw [utf8_cons, List.length_append, String.length_utf8EncodeChar]
      omega

/-- Characters are cut at the boundaries of their bytes, and nowhere else. -/
theorem cutBytes?_eq_none_iff {n : Nat} : cutBytes? n cs = none ↔ isBoundary (utf8 cs) n = false := by
  rw [← Bool.not_eq_true, isBoundary_utf8_iff, Option.eq_none_iff_forall_ne_some, not_exists]
  constructor
  · rintro hnone a ⟨b, rfl, rfl⟩
    exact hnone (a, b) (cutBytes?_append a b)
  · rintro hno ⟨a, b⟩ hcut
    exact hno a ⟨b, of_cutBytes? hcut⟩

/-! ## Case -/

/-- The byte with `a` to `z` raised. -/
def raise (b : UInt8) : UInt8 := if 97 ≤ b && b ≤ 122 then b - 32 else b

/-- Are bytes equal up to the case of `A` to `Z`? -/
def sameBytes (a b : List UInt8) : Bool := a.map raise == b.map raise

theorem raise_of_le {b : UInt8} (h : 128 ≤ b.toNat) : raise b = b := by
  have hlast : ¬ b ≤ 122 := by
    rw [UInt8.le_iff_toNat_le]
    show ¬ b.toNat ≤ 122
    omega
  simp [raise, hlast]

theorem toUpper_of_le {c : Char} (h : 128 ≤ c.val.toNat) : c.toUpper = c := by
  unfold Char.toUpper
  rw [dif_neg]
  rintro ⟨-, hz⟩
  have hlast : c.val.toNat ≤ 122 := UInt32.le_iff_toNat_le.mp hz
  omega

/-- The bytes of a raised character are the raised bytes of the character. -/
theorem map_raise_utf8EncodeChar (c : Char) :
    (String.utf8EncodeChar c).map raise = String.utf8EncodeChar c.toUpper := by
  by_cases hsmall : c.val.toNat < 128
  · have hall : ∀ n : Fin 128, (String.utf8EncodeChar (Char.ofNat n.val)).map raise =
        String.utf8EncodeChar (Char.ofNat n.val).toUpper := by decide +kernel
    have hc := hall ⟨c.toNat, hsmall⟩
    rwa [Char.ofNat_toNat] at hc
  · -- no byte of such a character is a letter
    obtain ⟨first, more, hbytes, -, hfirst, hmore⟩ := exists_utf8EncodeChar c
    have hlarge : ∀ b ∈ String.utf8EncodeChar c, raise b = b := by
      rw [hbytes]
      refine List.forall_mem_cons.mpr ⟨raise_of_le (hfirst (by omega)), fun b hb => ?_⟩
      exact raise_of_le (isContinuation_iff.mp (hmore b hb)).1
    rw [toUpper_of_le (by omega), List.map_congr_left hlarge, List.map_id']

theorem map_raise_utf8 (cs : List Char) : (utf8 cs).map raise = utf8 (cs.map Char.toUpper) := by
  induction cs with
  | nil => rfl
  | cons c cs ih => rw [utf8_cons, List.map_append, map_raise_utf8EncodeChar, ih, List.map_cons, utf8_cons]

/-- Characters that are equal up to case take as many bytes. -/
theorem length_utf8_of_same (h : a.map Char.toUpper = b.map Char.toUpper) : (utf8 a).length = (utf8 b).length := by
  rw [← List.length_map raise, map_raise_utf8, h, ← map_raise_utf8, List.length_map]

/-- Where bytes are those of a pattern up to case, characters are those of the pattern up to case. -/
theorem sameBytes_take_iff : sameBytes ((utf8 cs).take (utf8 ps).length) (utf8 ps) = true ↔
    ∃ found rest, cs = found ++ rest ∧ found.map Char.toUpper = ps.map Char.toUpper := by
  rw [sameBytes, beq_iff_eq, List.map_take, map_raise_utf8, map_raise_utf8]
  constructor
  · intro h
    have hprefix : ps.map Char.toUpper <+: cs.map Char.toUpper := by
      apply utf8_isPrefix
      rw [← h]
      exact List.take_prefix _ _
    obtain ⟨rest, hrest⟩ := hprefix
    obtain ⟨found, rest, rfl, hfound, -⟩ := List.map_eq_append_iff.mp hrest.symm
    exact ⟨found, rest, rfl, hfound⟩
  · rintro ⟨found, rest, rfl, hfound⟩
    rw [List.map_append, utf8_append, hfound, ← map_raise_utf8 ps]
    apply List.take_left'
    rw [List.length_map]

end BatchShell.Text
