import BatchShell.Loop.LineOptions
import BatchShell.Proofs.Numeral.Decimal
import Mathlib.Data.List.Basic
import Mathlib.Order.Basic

/-!
# Reading options

An option text is read from left to right, one option after another. What one option can say is told once
(`Reads`): a keyword in any letter case, its value, and what is left of the text. What is true of whole texts comes
from that.

* `reads_of_readOne`, `Reads.readOne`: one option is read as `Reads` says, and nothing else is.
* `keeps_of_parseFrom`: what every option keeps, a whole text keeps.
* `asks_of_parse`: the field numbers that an option text asks for go up from 1 to 31.
-/
namespace BatchShell.Loop.LineOptions

open Text

variable {options options' : LineOptions} {cs rest : List Char} {keyword : String}

/-! ## Keywords -/

/-- A keyword in any letter case. -/
def Spells (word : List Char) (keyword : String) : Prop := word.map Char.toLower = keyword.toList

theorem afterKeyword?_eq_some_iff :
    afterKeyword? keyword cs = some rest ↔ ∃ word, Spells word keyword ∧ cs = word ++ rest := by
  simp only [afterKeyword?, Option.ite_none_right_eq_some, Option.some.injEq, List.isPrefixOf_iff_prefix]
  constructor
  · rintro ⟨hstarts, rfl⟩
    refine ⟨cs.take keyword.toList.length, ?_, (List.take_append_drop _ _).symm⟩
    rw [Spells, List.map_take]
    exact (List.prefix_iff_eq_take.mp hstarts).symm
  · rintro ⟨word, hword, rfl⟩
    have hlength : keyword.toList.length = word.length := by rw [← hword, List.length_map]
    rw [List.map_append, hword, hlength]
    exact ⟨List.prefix_append _ _, List.drop_left⟩

theorem Spells.head? {word : List Char} (h : Spells word keyword) (hkeyword : keyword.toList.head? ≠ none)
    (rest : List Char) : (word ++ rest).head?.map Char.toLower = keyword.toList.head? := by
  cases word with
  | nil =>
    rw [← h] at hkeyword
    exact absurd rfl hkeyword
  | cons c word => rw [← h]; rfl

/-- The keywords start with different letters, so a text starts with one of them only. -/
theorem Spells.not_after {word found : List Char} {other : String} (h : Spells word keyword)
    (hafter : afterKeyword? other (word ++ rest) = some found)
    (hfirst : [none, keyword.toList.head?, other.toList.head?].Nodup) : False := by
  simp only [List.nodup_cons, List.mem_cons, List.not_mem_nil, or_false, not_or] at hfirst
  obtain ⟨word', hword', heq⟩ := afterKeyword?_eq_some_iff.mp hafter
  have hhead := h.head? (Ne.symm hfirst.1.1) rest
  rw [heq, hword'.head? (Ne.symm hfirst.1.2) found] at hhead
  exact hfirst.2.1 hhead.symm

/-! ## One option -/

/-- The text of the characters between fields, and what is left after it. -/
def cutValue : List Char → List Char × List Char
  | [] => ([], [])
  | c :: cs => cutDelims [c] cs

/-- What one option at the start of a text makes of the options, and what is left of the text. -/
inductive Reads (options : LineOptions) : List Char → LineOptions → List Char → Prop where
  | backQuote {word : List Char} (h : Spells word "usebackq") (cs : List Char) :
    Reads options (word ++ cs) { options with useBackQuote := true } cs
  | eol {word : List Char} (h : Spells word "eol=") (cs : List Char) :
    Reads options (word ++ cs) { options with eol := cs.head? } (cs.drop 1)
  | skip {word cs : List Char} {n : Nat} (h : Spells word "skip=")
    (hn : Numeral.natural? (String.ofList (cs.takeWhile Char.isDigit)) = some n) :
    Reads options (word ++ cs) { options with skip := n } (cs.dropWhile Char.isDigit)
  | tokens {word cs : List Char} {numbers : List Nat} {star : Bool} (h : Spells word "tokens=")
    (hlist : tokenList? (String.ofList (cs.takeWhile fun c => !isBlank c)) = .ok (some (numbers, star))) :
    Reads options (word ++ cs) { options with tokens := numbers, rest := star } (cs.dropWhile fun c => !isBlank c)
  | delims {word : List Char} (h : Spells word "delims=") (cs : List Char) :
    Reads options (word ++ cs) { options with delims := delimsOf (cutValue cs).1 } (cutValue cs).2

/-- What is read at the start of a text is one of the options. -/
theorem reads_of_readOne {next : LineOptions × { rest : List Char // rest.length < cs.length }}
    (h : readOne options cs = .ok next) : Reads options cs next.1 next.2.val := by
  unfold readOne at h
  split at h
  · rename_i hafter
    obtain ⟨word, hword, rfl⟩ := afterKeyword?_eq_some_iff.mp hafter
    cases h
    exact .backQuote hword _
  split at h
  · rename_i hafter
    obtain ⟨word, hword, rfl⟩ := afterKeyword?_eq_some_iff.mp hafter
    cases h
    exact .eol hword _
  split at h
  · rename_i hafter
    obtain ⟨word, hword, rfl⟩ := afterKeyword?_eq_some_iff.mp hafter
    split at h
    · rename_i hn
      cases h
      exact .skip hword hn
    · cases h
  split at h
  · rename_i hafter
    obtain ⟨word, hword, rfl⟩ := afterKeyword?_eq_some_iff.mp hafter
    dsimp only at h
    split at h
    · cases h
    · cases h
    · rename_i hlist
      cases h
      exact .tokens hword hlist
  split at h
  · rename_i value hafter
    obtain ⟨word, hword, rfl⟩ := afterKeyword?_eq_some_iff.mp hafter
    cases h
    cases value <;> exact .delims hword _
  · cases h

theorem Spells.after {word : List Char} (h : Spells word keyword) (cs : List Char) :
    afterKeyword? keyword (word ++ cs) = some cs :=
  afterKeyword?_eq_some_iff.mpr ⟨word, h, rfl⟩

/-- An option at the start of a text is read. -/
theorem Reads.readOne (h : Reads options cs options' rest) :
    ∃ next, readOne options cs = .ok (options', next) ∧ next.val = rest := by
  unfold LineOptions.readOne
  cases h with
  | backQuote h =>
    split
    · rename_i heq
      cases (h.after rest).symm.trans heq
      exact ⟨_, rfl, rfl⟩
    · rename_i heq
      cases (h.after rest).symm.trans heq
  | eol h cs =>
    split
    · exact (h.not_after ‹_› (by decide)).elim
    split
    · rename_i heq
      cases (h.after cs).symm.trans heq
      exact ⟨_, rfl, rfl⟩
    · rename_i heq
      cases (h.after cs).symm.trans heq
  | @skip _ cs _ h hn =>
    split
    · exact (h.not_after ‹_› (by decide)).elim
    split
    · exact (h.not_after ‹_› (by decide)).elim
    split
    · rename_i heq
      cases (h.after cs).symm.trans heq
      split
      · rename_i heq
        cases hn.symm.trans heq
        exact ⟨_, rfl, rfl⟩
      · rename_i heq
        cases hn.symm.trans heq
    · rename_i heq
      cases (h.after cs).symm.trans heq
  | @tokens _ cs _ _ h hlist =>
    split
    · exact (h.not_after ‹_› (by decide)).elim
    split
    · exact (h.not_after ‹_› (by decide)).elim
    split
    · exact (h.not_after ‹_› (by decide)).elim
    split
    · rename_i heq
      cases (h.after cs).symm.trans heq
      dsimp only
      split
      · rename_i heq
        cases hlist.symm.trans heq
      · rename_i heq
        cases hlist.symm.trans heq
      · rename_i heq
        cases hlist.symm.trans heq
        exact ⟨_, rfl, rfl⟩
    · rename_i heq
      cases (h.after cs).symm.trans heq
  | delims h cs =>
    split
    · exact (h.not_after ‹_› (by decide)).elim
    split
    · exact (h.not_after ‹_› (by decide)).elim
    split
    · exact (h.not_after ‹_› (by decide)).elim
    split
    · exact (h.not_after ‹_› (by decide)).elim
    split
    · rename_i heq
      cases (h.after cs).symm.trans heq
      cases cs <;> exact ⟨_, rfl, rfl⟩
    · rename_i heq
      cases (h.after cs).symm.trans heq

theorem toLower_of_isBlank {c : Char} (h : isBlank c = true) : c.toLower = c := by
  unfold Char.toLower
  split
  · rename_i hupper
    have hlow : 65 ≤ c.toNat := hupper.1
    have hhigh : c.toNat ≤ 90 := hupper.2
    simp only [isBlank, Bool.or_eq_true, Bool.and_eq_true, decide_eq_true_eq, beq_iff_eq] at h
    omega
  · rfl

theorem Spells.notBlank {word : List Char} (h : Spells word keyword) (rest : List Char)
    (hkeyword : keyword.toList.head?.map isBlank = some false) :
    ∃ c more, word ++ rest = c :: more ∧ isBlank c = false := by
  have hne : keyword.toList.head? ≠ none := by
    intro hnone
    rw [hnone] at hkeyword
    cases hkeyword
  rw [← h.head? hne rest] at hkeyword
  cases htext : word ++ rest with
  | nil =>
    rw [htext] at hkeyword
    cases hkeyword
  | cons c more =>
    refine ⟨c, more, rfl, ?_⟩
    rw [htext] at hkeyword
    cases hblank : isBlank c with
    | false => rfl
    | true =>
      rw [List.head?_cons, Option.map_some, toLower_of_isBlank hblank, Option.map_some, hblank] at hkeyword
      cases hkeyword

/-- An option does not start with white space. -/
theorem Reads.starts (h : Reads options cs options' rest) : ∃ c more, cs = c :: more ∧ isBlank c = false := by
  cases h with
  | backQuote h => exact h.notBlank _ rfl
  | eol h => exact h.notBlank _ rfl
  | skip h => exact h.notBlank _ rfl
  | tokens h => exact h.notBlank _ rfl
  | delims h => exact h.notBlank _ rfl

/-! ## The whole text -/

theorem parseFrom_nil : parseFrom options [] = .ok options := by
  rw [parseFrom.eq_def]

theorem parseFrom_blank {c : Char} (h : isBlank c = true) (cs : List Char) :
    parseFrom options (c :: cs) = parseFrom options cs := by
  rw [parseFrom.eq_def]
  exact if_pos h

theorem Reads.parseFrom (h : Reads options cs options' rest) :
    parseFrom options cs = parseFrom options' rest := by
  obtain ⟨next, hread, rfl⟩ := h.readOne
  obtain ⟨c, more, rfl, hblank⟩ := h.starts
  rw [LineOptions.parseFrom.eq_def]
  dsimp only
  rw [hblank, if_neg Bool.false_ne_true, hread]

/-- What every option keeps, a whole text keeps. -/
theorem keeps_of_parseFrom {keeps : LineOptions → Prop}
    (hstep : ∀ {options cs options' rest}, Reads options cs options' rest → keeps options → keeps options')
    (h : LineOptions.parseFrom options cs = .ok options') (hstart : keeps options) : keeps options' := by
  fun_induction LineOptions.parseFrom options cs with
  | case1 options =>
    cases h
    exact hstart
  | case2 options c cs hblank ih => exact ih h hstart
  | case3 options c cs hblank text hread => cases h
  | case4 options c cs hblank next rest hread ih => exact ih h (hstep (reads_of_readOne hread) hstart)

/-! ## Field numbers -/

/-- Dropping repetitions from numbers in order leaves them in strict order, and none gets lost. -/
theorem exists_eraseReps {ns : List Nat} {n : Nat} (h : (n :: ns).Pairwise (· ≤ ·)) (done : List Nat) :
    ∃ kept, List.eraseRepsBy.loop (· == ·) n ns done = done.reverse ++ kept ∧ kept.Pairwise (· < ·) ∧
      ∀ m, m ∈ kept ↔ m ∈ n :: ns := by
  induction ns generalizing n done with
  | nil => exact ⟨[n], by simp [List.eraseRepsBy.loop], List.pairwise_singleton _ _, fun m => Iff.rfl⟩
  | cons k ns ih =>
    obtain ⟨hn, hns⟩ := List.pairwise_cons.mp h
    by_cases heq : n = k
    · subst heq
      obtain ⟨kept, hloop, hkept, hmem⟩ := ih hns done
      refine ⟨kept, ?_, hkept, ?_⟩
      · rw [List.eraseRepsBy.loop, beq_self_eq_true]
        exact hloop
      · simp [hmem]
    · obtain ⟨kept, hloop, hkept, hmem⟩ := ih hns (n :: done)
      refine ⟨n :: kept, ?_, ?_, ?_⟩
      · rw [List.eraseRepsBy.loop, beq_eq_false_iff_ne.mpr heq]
        simp [hloop]
      · -- what is kept is at least `k`, and that is more than `n`
        rw [List.pairwise_cons]
        refine ⟨fun m hm => ?_, hkept⟩
        have hfirst : n ≤ k := hn k List.mem_cons_self
        obtain rfl | hm := List.mem_cons.mp ((hmem m).mp hm)
        · omega
        · have hrest : k ≤ m := (List.pairwise_cons.mp hns).1 m hm
          omega
      · simp [hmem]

theorem sortedNumbers_spec (ns : List Nat) :
    (sortedNumbers ns).Pairwise (· < ·) ∧ ∀ n, n ∈ sortedNumbers ns ↔ n ∈ ns := by
  have hsorted : (ns.mergeSort fun a b => decide (a ≤ b)).Pairwise fun a b => decide (a ≤ b) = true := by
    apply List.pairwise_mergeSort
    · intro a b c
      simp only [decide_eq_true_eq]
      exact Nat.le_trans
    · intro a b
      simp only [Bool.or_eq_true, decide_eq_true_eq]
      exact Nat.le_total a b
  simp only [decide_eq_true_eq] at hsorted
  have hmem (n : Nat) : n ∈ ns.mergeSort (fun a b => decide (a ≤ b)) ↔ n ∈ ns := List.mem_mergeSort
  unfold sortedNumbers List.eraseReps List.eraseRepsBy
  split
  · rename_i hnil
    simp only [hnil] at hmem
    exact ⟨List.Pairwise.nil, hmem⟩
  · rename_i n rest hcons
    rw [hcons] at hsorted
    obtain ⟨kept, hloop, hkept, hkeptMem⟩ := exists_eraseReps hsorted []
    rw [hloop, List.reverse_nil, List.nil_append]
    refine ⟨hkept, fun m => ?_⟩
    rw [hkeptMem, ← hcons, hmem]

/-- Numbers in strict order are sorted already. -/
theorem sortedNumbers_eq_self {ns : List Nat} (h : ns.Pairwise (· < ·)) : sortedNumbers ns = ns := by
  obtain ⟨hsorted, hmem⟩ := sortedNumbers_spec ns
  have hperm : (sortedNumbers ns).Perm ns := by
    rw [List.perm_ext_iff_of_nodup (hsorted.imp Nat.ne_of_lt) (h.imp Nat.ne_of_lt)]
    exact hmem
  exact hperm.eq_of_pairwise (fun a b _ _ hab hba => absurd hab (Nat.lt_asymm hba)) hsorted h

/-- The options ask for something: for fields, whose numbers go up from 1 to 31, or for the rest of the line. -/
structure Asks (options : LineOptions) : Prop where
  increasing : options.tokens.Pairwise (· < ·)
  inRange : ∀ n ∈ options.tokens, 1 ≤ n ∧ n ≤ 31
  something : options.tokens ≠ [] ∨ options.rest = true

theorem tokenList?_eq_some {text : String} {numbers : List Nat} {star : Bool}
    (h : tokenList? text = .ok (some (numbers, star))) :
    numbers.Pairwise (· < ·) ∧ (∀ n ∈ numbers, 1 ≤ n ∧ n ≤ 31) ∧ (numbers ≠ [] ∨ star = true) := by
  rw [tokenList?, Except.map_eq_ok_iff] at h
  obtain ⟨read, -, h⟩ := h
  simp only [bind, Option.bind_eq_some_iff, Option.ite_none_left_eq_some, Option.some.injEq] at h
  obtain ⟨⟨found, star⟩, -, hno, heq⟩ := h
  cases heq
  obtain ⟨hsorted, -⟩ := sortedNumbers_spec found
  simp only [Bool.or_eq_true, List.any_eq_true, Bool.and_eq_true, beq_iff_eq, decide_eq_true_eq, not_or, not_exists,
    not_and] at hno
  refine ⟨hsorted, fun n hn => ?_, ?_⟩
  · have hbad := hno.1 n hn
    omega
  · have hsome := hno.2
    simp only [List.isEmpty_iff, Bool.not_eq_true', Bool.not_eq_false] at hsome
    exact (Decidable.em (sortedNumbers found = [])).symm.imp_right hsome

theorem Reads.asks (h : Reads options cs options' rest) (hasks : options.Asks) : options'.Asks := by
  cases h with
  | backQuote => exact ⟨hasks.increasing, hasks.inRange, hasks.something⟩
  | eol => exact ⟨hasks.increasing, hasks.inRange, hasks.something⟩
  | skip => exact ⟨hasks.increasing, hasks.inRange, hasks.something⟩
  | tokens _ hlist =>
    obtain ⟨hsorted, hrange, hsome⟩ := tokenList?_eq_some hlist
    exact ⟨hsorted, hrange, hsome⟩
  | delims => exact ⟨hasks.increasing, hasks.inRange, hasks.something⟩

/-- Every option text that is accepted asks for something. -/
theorem asks_of_parse {text : String} (h : parse text = .ok options) : options.Asks := by
  have hstandard : standard.Asks := ⟨by decide, by decide, by decide⟩
  exact keeps_of_parseFrom Reads.asks h hstandard

end BatchShell.Loop.LineOptions
