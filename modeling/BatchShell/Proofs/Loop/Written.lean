import BatchShell.Proofs.Loop.Options
import BatchShell.Text.Case
import Mathlib.Data.List.TakeWhile

/-!
# Options written down

Options are written down with `delims=` first, whose value has no sign that ends it: it goes on to the next keyword
after white space. So the characters between fields may be any, white space and signs of other options among them, as
long as no keyword comes after white space there (`HidesKeyword`).

* `cutDelims_written`: the value of `delims=` ends before the keyword that was written behind it.
* `tokenList?_written`: a list of field numbers reads back.
* `parse_write`: options that are written down, with the keywords in any letter case, are read back.
-/
namespace BatchShell.Loop.LineOptions

open Text

variable {options : LineOptions} {word : List Char}

/-! ## The characters between fields -/

/-- A keyword comes after white space. -/
def HidesKeyword (cs : List Char) : Prop :=
  ∃ before blank after, cs = before ++ blank :: after ∧ isBlank blank = true ∧ startsKeyword after = true

theorem not_hidesKeyword_nil : ¬ HidesKeyword [] := by
  rintro ⟨before, blank, after, heq, -⟩
  cases before <;> cases heq

theorem hidesKeyword_cons {c : Char} {cs : List Char} :
    HidesKeyword (c :: cs) ↔ (isBlank c = true ∧ startsKeyword cs = true) ∨ HidesKeyword cs := by
  constructor
  · rintro ⟨before, blank, after, heq, hblank, hkeyword⟩
    cases before with
    | nil =>
      cases heq
      exact .inl ⟨hblank, hkeyword⟩
    | cons b before =>
      cases heq
      exact .inr ⟨before, blank, after, rfl, hblank, hkeyword⟩
  · rintro (⟨hblank, hkeyword⟩ | ⟨before, blank, after, rfl, hblank, hkeyword⟩)
    · exact ⟨[], c, cs, rfl, hblank, hkeyword⟩
    · exact ⟨c :: before, blank, after, rfl, hblank, hkeyword⟩

instance decidableHidesKeyword : (cs : List Char) → Decidable (HidesKeyword cs)
  | [] => isFalse not_hidesKeyword_nil
  | _ :: cs =>
    have := decidableHidesKeyword cs
    decidable_of_iff _ hidesKeyword_cons.symm

/-- A keyword has no blank in it, so it does not reach over one. -/
theorem startsKeyword_append (cs next : List Char) : startsKeyword (cs ++ ' ' :: next) = startsKeyword cs := by
  have hkeyword : ∀ k ∈ keywords, ' ' ∉ k := by decide
  have hstarts : ∀ k ∈ keywords, (k.isPrefixOf ((cs ++ ' ' :: next).map Char.toLower) = true ↔
      k.isPrefixOf (cs.map Char.toLower) = true) := by
    intro k hk
    rw [List.isPrefixOf_iff_prefix, List.isPrefixOf_iff_prefix, List.map_append]
    constructor
    · intro h
      obtain hlt | hle := Nat.lt_or_ge (cs.map Char.toLower).length k.length
      · -- the blank would belong to the keyword
        have hblank : cs.map Char.toLower ++ [' '] <+: cs.map Char.toLower ++ (' ' :: next).map Char.toLower :=
          (List.prefix_append_right_inj _).mpr ⟨_, rfl⟩
        have hshort := List.prefix_of_prefix_length_le hblank h (by simpa using Nat.succ_le_of_lt hlt)
        exact absurd (hshort.subset (by simp)) (hkeyword k hk)
      · exact List.prefix_of_prefix_length_le h (List.prefix_append _ _) hle
    · intro h
      exact h.trans (List.prefix_append _ _)
  rw [Bool.eq_iff_iff]
  simp only [startsKeyword, List.any_eq_true]
  constructor
  · rintro ⟨k, hk, h⟩
    exact ⟨k, hk, (hstarts k hk).mp h⟩
  · rintro ⟨k, hk, h⟩
    exact ⟨k, hk, (hstarts k hk).mpr h⟩

theorem Spells.starts {keyword : String} (h : Spells word keyword) (hkeyword : keyword.toList ∈ keywords)
    (next : List Char) : startsKeyword (word ++ next) = true := by
  rw [startsKeyword, List.any_eq_true]
  refine ⟨keyword.toList, hkeyword, ?_⟩
  rw [List.isPrefixOf_iff_prefix, List.map_append, h]
  exact List.prefix_append _ _

/-- The value of `delims=` goes on to the keyword behind it. -/
theorem cutDelims_written {before cs next : List Char} (hfree : ¬ HidesKeyword (before.reverse ++ cs))
    (hnext : startsKeyword next = true) :
    cutDelims before (cs ++ ' ' :: next) = (before.reverse ++ cs ++ [' '], next) := by
  induction cs generalizing before with
  | nil =>
    have hblank : startsKeyword (' ' :: next) = false := startsKeyword_append [] next
    rw [List.nil_append, cutDelims, hblank, Bool.and_false, if_neg Bool.false_ne_true]
    cases next with
    | nil => cases hnext
    | cons c next =>
      rw [cutDelims, hnext]
      simp [isBlank]
  | cons c cs ih =>
    have hno : ((before.head?.map isBlank).getD false && startsKeyword (c :: (cs ++ ' ' :: next))) = false := by
      rw [Bool.and_eq_false_iff, ← List.cons_append, startsKeyword_append]
      cases before with
      | nil => exact .inl rfl
      | cons b before =>
        rw [List.head?_cons, Option.map_some, Option.getD_some, ← Bool.and_eq_false_iff, ← Bool.not_eq_true,
          Bool.and_eq_true]
        rintro ⟨hblank, hkeyword⟩
        exact hfree ⟨before.reverse, b, c :: cs, by simp, hblank, hkeyword⟩
    have hline : (c :: before).reverse ++ cs = before.reverse ++ c :: cs := by simp
    rw [List.cons_append, cutDelims, hno, if_neg Bool.false_ne_true, ih (by rwa [hline]), hline]

theorem delimsOf_append {cs : List Char} (hne : cs ≠ []) : delimsOf (cs ++ [' ']) = cs := by
  obtain ⟨c, more, hreverse⟩ := List.exists_cons_of_ne_nil (List.reverse_ne_nil_iff.mpr hne)
  have hcs : (c :: more).reverse = cs := by rw [← hreverse, List.reverse_reverse]
  simp [delimsOf, isBlank, ← hcs]

theorem parseFrom_delims (hword : Spells word "delims=") {cs next : List Char} (hne : cs ≠ [])
    (hfree : ¬ HidesKeyword cs) (hnext : startsKeyword next = true) :
    parseFrom options (word ++ (cs ++ ' ' :: next)) = parseFrom { options with delims := cs } next := by
  have hcut : cutValue (cs ++ ' ' :: next) = (cs ++ [' '], next) := by
    cases cs with
    | nil => exact absurd rfl hne
    | cons c cs =>
      show cutDelims [c] (cs ++ ' ' :: next) = ([c].reverse ++ cs ++ [' '], next)
      exact cutDelims_written hfree hnext
  have hread : Reads options (word ++ (cs ++ ' ' :: next)) _ _ := .delims hword _
  rw [hread.parseFrom, hcut, delimsOf_append hne]

/-! ## Field numbers -/

/-- A list of field numbers, with an asterisk for the rest of the line. -/
def tokenText (numbers : List Nat) (star : Bool) : String :=
  ",".intercalate (numbers.map toString) ++ if star then "*" else ""

/-- The asterisk of a list, if there is one. -/
def starText (star : Bool) : List Char := if star then ['*'] else []

theorem eq_of_mem_starText {star : Bool} {c : Char} (h : c ∈ starText star) : c = '*' := by
  cases star with
  | false => cases h
  | true => exact List.mem_singleton.mp h

theorem toList_tokenText (numbers : List Nat) (star : Bool) : (tokenText numbers star).toList =
    [','].intercalate (numbers.map (Nat.toDigits 10)) ++ starText star := by
  have hdigits : (numbers.map toString).map String.toList = numbers.map (Nat.toDigits 10) := by
    rw [List.map_map]
    apply List.map_congr_left
    intro n _
    exact Nat.toList_repr
  have hstar : (if star then "*" else "" : String).toList = starText star := by cases star <;> rfl
  rw [tokenText, String.toList_append, String.toList_intercalate, hdigits, hstar]
  rfl

/-- There is no white space in a list of field numbers. -/
theorem isBlank_of_mem_tokenText {numbers : List Nat} {star : Bool} {c : Char}
    (h : c ∈ (tokenText numbers star).toList) : isBlank c = false := by
  rw [toList_tokenText, List.mem_append] at h
  obtain h | h := h
  · induction numbers with
    | nil => cases h
    | cons n numbers ih =>
      cases numbers with
      | nil => exact Numeral.isBlank_of_mem_toDigits (by simpa using h)
      | cons m numbers =>
        rw [List.map_cons, List.map_cons, List.intercalate_cons_cons, List.mem_append, List.mem_append] at h
        obtain (h | h) | h := h
        · exact Numeral.isBlank_of_mem_toDigits h
        · obtain rfl := List.mem_singleton.mp h
          decide
        · exact ih h
  · rw [eq_of_mem_starText h]
    decide

/-- A piece that holds no separator is read to its end. -/
theorem piecesAux_append {p : Char → Bool} {cs : List Char} (h : ∀ c ∈ cs, p c = false) (piece rest : List Char) :
    piecesAux p piece (cs ++ rest) = piecesAux p (cs.reverse ++ piece) rest := by
  induction cs generalizing piece with
  | nil => rfl
  | cons c cs ih =>
    obtain ⟨hc, hcs⟩ := List.forall_mem_cons.mp h
    rw [List.cons_append, piecesAux, hc, if_neg Bool.false_ne_true, ih hcs]
    simp

theorem partNumbers?_toDigits {n : Nat} (hn : n < UInt64.size) :
    partNumbers? (String.ofList (Nat.toDigits 10 n)) = .ok (some [n]) := by
  have hcut : cutAt '-' (String.ofList (Nat.toDigits 10 n)) = none := by
    apply cutAt_of_not_mem
    rw [String.toList_ofList]
    exact Numeral.not_mem_toDigits rfl
  rw [partNumbers?, hcut]
  simp [Numeral.natural?_toDigits hn]

theorem dropSuffix?_star (n : Nat) (star : Bool) :
    dropSuffix? "*" (String.ofList (Nat.toDigits 10 n ++ starText star)) =
      if star then some (String.ofList (Nat.toDigits 10 n)) else none := by
  cases star with
  | true => simp [dropSuffix?, afterPrefix?, starText]
  | false =>
    obtain ⟨c, more, hreverse⟩ :=
      List.exists_cons_of_ne_nil (List.reverse_ne_nil_iff.mpr (Nat.toDigits_ne_nil (n := n) (b := 10)))
    have hmem : c ∈ Nat.toDigits 10 n := by
      rw [← List.mem_reverse, hreverse]
      exact List.mem_cons_self
    have hne : '*' ≠ c := by
      rintro rfl
      exact Numeral.not_mem_toDigits rfl hmem
    simp [dropSuffix?, afterPrefix?, starText, hreverse, hne]

/-- One field number is read, and the asterisk behind it. -/
theorem readPart_number {n : Nat} (hn : n < UInt64.size) (star : Bool) :
    readPart (String.ofList (Nat.toDigits 10 n ++ starText star)) = .ok (some ([n], star)) := by
  have hblank : ∀ c ∈ (String.ofList (Nat.toDigits 10 n ++ starText star)).toList, isBlank c = false := by
    intro c hc
    rw [String.toList_ofList, List.mem_append] at hc
    obtain hc | hc := hc
    · exact Numeral.isBlank_of_mem_toDigits hc
    · rw [eq_of_mem_starText hc]
      decide
  have hne : (String.ofList (Nat.toDigits 10 n)).isEmpty = false := by simp [Nat.toDigits_ne_nil]
  rw [readPart]
  simp only [Numeral.trim_eq_self hblank, dropSuffix?_star]
  cases star with
  | true => simp [hne, partNumbers?_toDigits hn]
  | false => simp [starText, hne, partNumbers?_toDigits hn]

/-- The pieces of a list of field numbers give the numbers and the asterisk. -/
theorem readParts_written {numbers : List Nat} (h : ∀ n ∈ numbers, n < UInt64.size) (hne : numbers ≠ [])
    (star : Bool) : readParts (pieces (· == ',') (tokenText numbers star)) = .ok (some (numbers, star)) := by
  have hnumber (n : Nat) : ∀ c ∈ Nat.toDigits 10 n, (c == ',') = false := by
    intro c hc
    rw [beq_eq_false_iff_ne]
    rintro rfl
    exact Numeral.not_mem_toDigits rfl hc
  have hstar : ∀ c ∈ starText star, (c == ',') = false := by
    intro c hc
    rw [eq_of_mem_starText hc]
    rfl
  rw [pieces, toList_tokenText]
  induction numbers with
  | nil => exact absurd rfl hne
  | cons n numbers ih =>
    obtain ⟨hn, hnumbers⟩ := List.forall_mem_cons.mp h
    cases numbers with
    | nil =>
      have hpieces : piecesAux (· == ',') [] (Nat.toDigits 10 n ++ starText star) =
          [Nat.toDigits 10 n ++ starText star] := by
        have hall : ∀ c ∈ Nat.toDigits 10 n ++ starText star, (c == ',') = false := by
          intro c hc
          exact (List.mem_append.mp hc).elim (hnumber n c) (hstar c)
        have hread := piecesAux_append hall [] []
        rwa [List.append_nil, List.append_nil, piecesAux, List.reverse_reverse] at hread
      rw [List.map_singleton, List.intercalate_singleton, hpieces, List.map_singleton, readParts, readPart_number hn]
      simp [readParts, Except.bind]
    | cons m numbers =>
      rw [List.map_cons, List.map_cons, List.intercalate_cons_cons, List.append_assoc, List.append_assoc,
        piecesAux_append (hnumber n), ← List.map_cons, List.singleton_append, piecesAux]
      rw [if_pos (by rfl), List.append_nil, List.reverse_reverse, List.map_cons]
      have hfirst := readPart_number hn false
      rw [starText, if_neg Bool.false_ne_true, List.append_nil] at hfirst
      rw [readParts, hfirst, ih hnumbers (by simp)]
      rfl

theorem tokenList?_written {numbers : List Nat} {star : Bool} (hsorted : numbers.Pairwise (· < ·))
    (hrange : ∀ n ∈ numbers, 1 ≤ n ∧ n ≤ 31) (hsome : numbers ≠ [] ∨ star = true) :
    tokenList? (tokenText numbers star) = .ok (some (numbers, star)) := by
  have hread : readParts (pieces (· == ',') (tokenText numbers star)) = .ok (some (numbers, star)) := by
    cases numbers with
    | nil =>
      obtain rfl : star = true := hsome.resolve_left (by simp)
      decide +kernel
    | cons n numbers =>
      refine readParts_written (fun m hm => ?_) (by simp) star
      exact Nat.lt_of_le_of_lt (hrange m hm).2 (by decide)
  have hno : ¬ ((numbers.any (fun n => n == 0 || 31 < n) || (numbers.isEmpty && !star)) = true) := by
    rw [Bool.not_eq_true, Bool.or_eq_false_iff, List.any_eq_false]
    refine ⟨fun n hn => ?_, ?_⟩
    · have hn := hrange n hn
      simp
      omega
    · obtain hne | rfl := hsome
      · simp [hne]
      · simp
  rw [tokenList?, hread, Except.map_ok]
  simp only [bind, Option.bind_some, sortedNumbers_eq_self hsorted]
  exact congrArg Except.ok (if_neg hno)

/-- A value ends before the blank behind it. -/
theorem span_blank {p : Char → Bool} {value : List Char} (h : ∀ c ∈ value, p c = true) (hblank : p ' ' = false)
    (next : List Char) :
    (value ++ ' ' :: next).takeWhile p = value ∧ (value ++ ' ' :: next).dropWhile p = ' ' :: next := by
  have hstop : ¬ p ' ' = true := by rw [hblank]; exact Bool.false_ne_true
  constructor
  · rw [List.takeWhile_append_of_pos h, List.takeWhile_cons_of_neg hstop, List.append_nil]
  · rw [List.dropWhile_append_of_pos h, List.dropWhile_cons_of_neg hstop]

theorem parseFrom_tokens (hword : Spells word "tokens=") {numbers : List Nat} {star : Bool}
    (hlist : tokenList? (tokenText numbers star) = .ok (some (numbers, star))) (next : List Char) :
    parseFrom options (word ++ ((tokenText numbers star).toList ++ ' ' :: next)) =
      parseFrom { options with tokens := numbers, rest := star } next := by
  have hinside : ∀ c ∈ (tokenText numbers star).toList, (!isBlank c) = true := by
    intro c hc
    rw [isBlank_of_mem_tokenText hc]
    rfl
  obtain ⟨htake, hdrop⟩ := span_blank hinside rfl next
  have hread : tokenList? (String.ofList (((tokenText numbers star).toList ++ ' ' :: next).takeWhile
      fun c => !isBlank c)) = .ok (some (numbers, star)) := by
    rw [htake, String.ofList_toList, hlist]
  rw [(Reads.tokens hword hread).parseFrom, hdrop, parseFrom_blank (by decide)]

/-! ## The other options -/

theorem parseFrom_skip (hword : Spells word "skip=") {n : Nat} (hn : n < UInt64.size) (next : List Char) :
    parseFrom options (word ++ (Nat.toDigits 10 n ++ ' ' :: next)) = parseFrom { options with skip := n } next := by
  have hinside : ∀ c ∈ Nat.toDigits 10 n, c.isDigit = true := fun c hc =>
    Nat.isDigit_of_mem_toDigits (by decide) (by decide) hc
  obtain ⟨htake, hdrop⟩ := span_blank hinside rfl next
  have hread : Numeral.natural? (String.ofList ((Nat.toDigits 10 n ++ ' ' :: next).takeWhile Char.isDigit)) =
      some n := by
    rw [htake, Numeral.natural?_toDigits hn]
  rw [(Reads.skip hword hread).parseFrom, hdrop, parseFrom_blank (by decide)]

theorem parseFrom_eol (hword : Spells word "eol=") (c : Char) (next : List Char) :
    parseFrom options (word ++ c :: next) = parseFrom { options with eol := some c } next :=
  (Reads.eol hword (c :: next)).parseFrom

theorem parseFrom_backQuote (hword : Spells word "usebackq") :
    parseFrom options word = .ok { options with useBackQuote := true } := by
  have hread : Reads options (word ++ []) _ _ := .backQuote hword []
  rw [← List.append_nil word, hread.parseFrom, parseFrom_nil]

/-! ## Whole texts -/

/-- The keywords, each letter in either case. -/
structure Spelling where
  delims : String
  tokens : String
  skip : String
  eol : String
  backQuote : String
  lower_delims : lower delims = "delims="
  lower_tokens : lower tokens = "tokens="
  lower_skip : lower skip = "skip="
  lower_eol : lower eol = "eol="
  lower_backQuote : lower backQuote = "usebackq"

theorem spells_of_lower {text keyword : String} (h : lower text = keyword) : Spells text.toList keyword := by
  rw [Spells, ← h, lower, String.toList_map]

/-- Options written down, one behind the other. -/
def write (spelling : Spelling) (options : LineOptions) : String :=
  spelling.delims ++ String.ofList options.delims ++ " " ++
  spelling.tokens ++ tokenText options.tokens options.rest ++ " " ++
  spelling.skip ++ toString options.skip ++ " " ++
  spelling.eol ++ String.ofList options.eol.toList ++
  if options.useBackQuote then " " ++ spelling.backQuote else ""

/-- Options that can be written down: there are characters between fields and no keyword hides among them, the lines
to skip are counted in 64 bits, and comments have a character to start with. -/
structure Writable (options : LineOptions) : Prop extends options.Asks where
  delims_ne_nil : options.delims ≠ []
  delims_free : ¬ HidesKeyword options.delims
  skip_lt : options.skip < UInt64.size
  eol_isSome : options.eol.isSome = true

/-- **Options that are written down are read back.** -/
theorem parse_write (spelling : Spelling) (options : LineOptions) (h : options.Writable) :
    parse (options.write spelling) = .ok options := by
  obtain ⟨eol, skip, delims, numbers, star, useBackQuote⟩ := options
  obtain ⟨⟨hsorted, hrange, hsome⟩, hne, hfree, hskip, heol⟩ := h
  obtain ⟨c, rfl⟩ := Option.isSome_iff_exists.mp heol
  have hdelims := spells_of_lower spelling.lower_delims
  have htokens := spells_of_lower spelling.lower_tokens
  have hskipWord := spells_of_lower spelling.lower_skip
  have heolWord := spells_of_lower spelling.lower_eol
  have htext : (write spelling ⟨some c, skip, delims, numbers, star, useBackQuote⟩).toList =
      spelling.delims.toList ++ (delims ++ ' ' :: (spelling.tokens.toList ++ ((tokenText numbers star).toList ++
        ' ' :: (spelling.skip.toList ++ (Nat.toDigits 10 skip ++ ' ' :: (spelling.eol.toList ++
          c :: if useBackQuote then ' ' :: spelling.backQuote.toList else [])))))) := by
    cases useBackQuote <;> simp [write, Nat.toList_repr]
  have hlast (options : LineOptions) (hoff : options.useBackQuote = false) :
      parseFrom options (if useBackQuote then ' ' :: spelling.backQuote.toList else []) =
        .ok { options with useBackQuote } := by
    cases useBackQuote with
    | true =>
      rw [if_pos rfl, parseFrom_blank (by decide)]
      exact parseFrom_backQuote (spells_of_lower spelling.lower_backQuote)
    | false => rw [if_neg Bool.false_ne_true, parseFrom_nil, ← hoff]
  rw [parse, htext, parseFrom_delims hdelims hne hfree (htokens.starts (by decide) _),
    parseFrom_tokens htokens (tokenList?_written hsorted hrange hsome), parseFrom_skip hskipWord hskip,
    parseFrom_eol heolWord, hlast _ rfl]

/-- Keywords in both letter cases. -/
def mixedSpelling : Spelling :=
  ⟨"delims=", "TOKENS=", "Skip=", "eoL=", "useBackQ", by decide +kernel, by decide +kernel, by decide +kernel,
    by decide +kernel, by decide +kernel⟩

/-- White space, commas and a keyword among the characters between fields, and a blank that starts comments. -/
theorem parse_write_spaced :
    Writable ⟨some ' ', 2, [' ', ',', 'e', 'o', 'l', '=', '\t'], [2, 31], true, true⟩ ∧
      parse "delims= ,eol=\t TOKENS=2,31* Skip=2 eoL=  useBackQ" =
        .ok ⟨some ' ', 2, [' ', ',', 'e', 'o', 'l', '=', '\t'], [2, 31], true, true⟩ := by
  have hwritable : Writable ⟨some ' ', 2, [' ', ',', 'e', 'o', 'l', '=', '\t'], [2, 31], true, true⟩ :=
    ⟨⟨by decide, by decide, by decide⟩, by decide, by decide +kernel, by decide, rfl⟩
  have htext : write mixedSpelling ⟨some ' ', 2, [' ', ',', 'e', 'o', 'l', '=', '\t'], [2, 31], true, true⟩ =
      "delims= ,eol=\t TOKENS=2,31* Skip=2 eoL=  useBackQ" := by decide +kernel
  have hread := parse_write mixedSpelling _ hwritable
  rw [htext] at hread
  exact ⟨hwritable, hread⟩

end BatchShell.Loop.LineOptions
