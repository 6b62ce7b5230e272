import BatchShell.Proofs.Loop.Options
import Mathlib.Data.List.TakeWhile

/-!
# Fields of a line

A field of a line is a run of characters that do not delimit, with a delimiter or an end of the line on both sides
(`IsField`). It is told by where it starts and where it stops, so what comes behind a field can be told as well.

* `Fields.unique`: the fields of a line in their order are one list only.
* `exists_fields`: reading from left to right finds them.
* `split_of_parse`: the values of a line are those of the fields that an option text asks for.
-/
namespace BatchShell.Loop.LineOptions

open Text

variable {delims cs pre : List Char}

/-- The part of a text from the position `start` up to `stop`. -/
structure Span where
  start : Nat
  stop : Nat
  deriving DecidableEq

namespace Span

def text (f : Span) (cs : List Char) : List Char := (cs.take f.stop).drop f.start

/-- The text from the start of the part on. -/
def rest (f : Span) (cs : List Char) : List Char := cs.drop f.start

/-- The same part, when `n` characters come before the text. -/
def shift (n : Nat) (f : Span) : Span := ⟨n + f.start, n + f.stop⟩

@[simp]
theorem shift_start (n : Nat) (f : Span) : (f.shift n).start = n + f.start := rfl

@[simp]
theorem shift_stop (n : Nat) (f : Span) : (f.shift n).stop = n + f.stop := rfl

theorem text_shift (f : Span) (pre cs : List Char) : (f.shift pre.length).text (pre ++ cs) = f.text cs := by
  rw [text, shift_start, shift_stop, List.take_length_add_append, List.drop_length_add_append, text]

theorem rest_shift (f : Span) (pre cs : List Char) : (f.shift pre.length).rest (pre ++ cs) = f.rest cs := by
  rw [rest, shift_start, List.drop_length_add_append, rest]

theorem eq_shift {f : Span} {n : Nat} (hstart : n ≤ f.start) (hstop : n ≤ f.stop) : ∃ g : Span, f = g.shift n :=
  ⟨⟨f.start - n, f.stop - n⟩, by simp [shift, Nat.add_sub_cancel' hstart, Nat.add_sub_cancel' hstop]⟩

end Span

/-- A run of characters that are not among `delims`, which goes on to neither side. -/
structure IsField (delims cs : List Char) (f : Span) : Prop where
  start_lt : f.start < f.stop
  stop_le : f.stop ≤ cs.length
  inside : ∀ i c, f.start ≤ i → i < f.stop → cs[i]? = some c → c ∉ delims
  before : ∀ i c, i + 1 = f.start → cs[i]? = some c → c ∈ delims
  behind : ∀ c, cs[f.stop]? = some c → c ∈ delims

/-- All fields of a text, from left to right. -/
structure Fields (delims cs : List Char) (fields : List Span) : Prop where
  ordered : fields.Pairwise fun f g => f.stop < g.start
  mem_iff : ∀ f, f ∈ fields ↔ IsField delims cs f

theorem Fields.unique {fields fields' : List Span} (h : Fields delims cs fields) (h' : Fields delims cs fields') :
    fields = fields' := by
  have hnodup {fs : List Span} (hfs : Fields delims cs fs) : fs.Nodup := by
    refine hfs.ordered.imp_of_mem fun {f g} hf _ hlt => ?_
    rintro rfl
    exact Nat.lt_asymm hlt ((hfs.mem_iff f).mp hf).start_lt
  have hperm : fields.Perm fields' := by
    rw [List.perm_ext_iff_of_nodup (hnodup h) (hnodup h')]
    exact fun f => (h.mem_iff f).trans (h'.mem_iff f).symm
  refine hperm.eq_of_pairwise (fun f g hf hg hfg hgf => ?_) h.ordered h'.ordered
  have hf := ((h.mem_iff f).mp hf).start_lt
  have hg := ((h'.mem_iff g).mp hg).start_lt
  omega

/-! ## Texts with something before them -/

theorem getElem?_append_add (pre cs : List Char) (i : Nat) : (pre ++ cs)[pre.length + i]? = cs[i]? := by
  rw [List.getElem?_append_right (Nat.le_add_right _ _), Nat.add_sub_cancel_left]

/-- A field is a field behind other characters, if these end in a delimiter or the text starts with one. -/
theorem IsField.shift {g : Span} (pre : List Char) (h : IsField delims cs g)
    (hpre : g.start = 0 → ∀ c, pre.getLast? = some c → c ∈ delims) :
    IsField delims (pre ++ cs) (g.shift pre.length) where
  start_lt := Nat.add_lt_add_left h.start_lt _
  stop_le := by
    rw [List.length_append]
    exact Nat.add_le_add_left h.stop_le _
  inside i c hstart hstop hc := by
    obtain ⟨j, rfl⟩ := Nat.exists_eq_add_of_le ((Nat.le_add_right _ _).trans hstart)
    rw [getElem?_append_add] at hc
    exact h.inside j c (Nat.le_of_add_le_add_left hstart) (Nat.lt_of_add_lt_add_left hstop) hc
  before i c hi hc := by
    rw [Span.shift_start] at hi
    cases hstart : g.start with
    | zero =>
      refine hpre hstart c ?_
      rw [List.getLast?_eq_getElem?, ← hc, List.getElem?_append_left (by omega)]
      congr 1
      omega
    | succ j =>
      obtain rfl : i = pre.length + j := by omega
      rw [getElem?_append_add] at hc
      exact h.before j c hstart.symm hc
  behind c hc := by
    rw [Span.shift_stop, getElem?_append_add] at hc
    exact h.behind c hc

theorem IsField.of_shift {g : Span} (pre : List Char) (h : IsField delims (pre ++ cs) (g.shift pre.length)) :
    IsField delims cs g where
  start_lt := Nat.lt_of_add_lt_add_left h.start_lt
  stop_le := by
    have hstop := h.stop_le
    rw [List.length_append, Span.shift_stop] at hstop
    exact Nat.le_of_add_le_add_left hstop
  inside i c hstart hstop hc := by
    rw [← getElem?_append_add pre] at hc
    exact h.inside _ c (Nat.add_le_add_left hstart _) (Nat.add_lt_add_left hstop _) hc
  before i c hi hc := by
    rw [← getElem?_append_add pre] at hc
    exact h.before _ c (by rw [Span.shift_start, ← hi, Nat.add_assoc]) hc
  behind c hc := by
    rw [← getElem?_append_add pre] at hc
    exact h.behind c hc

/-- A field of a text that starts with a delimiter comes later. -/
theorem IsField.start_pos {f : Span} (h : IsField delims cs f) (hhead : ∀ c, cs.head? = some c → c ∈ delims) :
    0 < f.start := by
  refine Nat.pos_of_ne_zero fun hzero => ?_
  have hlength : 0 < cs.length := Nat.lt_of_lt_of_le (Nat.zero_lt_of_lt h.start_lt) h.stop_le
  obtain ⟨c, hc⟩ : ∃ c, cs[0]? = some c := ⟨_, List.getElem?_eq_getElem hlength⟩
  rw [List.head?_eq_getElem?] at hhead
  exact h.inside 0 c hzero.le (Nat.zero_lt_of_lt h.start_lt) hc (hhead c hc)

theorem Fields.nil : Fields delims [] [] where
  ordered := List.Pairwise.nil
  mem_iff _ := iff_of_false List.not_mem_nil fun hf =>
    absurd (Nat.lt_of_lt_of_le hf.start_lt hf.stop_le) (Nat.not_lt_zero _)

/-- Behind a delimiter the fields stay the same. -/
theorem Fields.cons_delim {fields : List Span} {d : Char} (hd : d ∈ delims) (h : Fields delims cs fields) :
    Fields delims (d :: cs) (fields.map (Span.shift 1)) where
  ordered := by
    rw [List.pairwise_map]
    exact h.ordered.imp fun hlt => Nat.add_lt_add_left hlt 1
  mem_iff f := by
    rw [List.mem_map]
    constructor
    · rintro ⟨g, hg, rfl⟩
      refine IsField.shift [d] ((h.mem_iff g).mp hg) fun _ c hc => ?_
      cases hc
      exact hd
    · intro hf
      have hstart : 1 ≤ f.start := hf.start_pos fun c hc => by
        cases hc
        exact hd
      obtain ⟨g, rfl⟩ := Span.eq_shift hstart (hstart.trans hf.start_lt.le)
      exact ⟨g, (h.mem_iff g).mpr (IsField.of_shift [d] hf), rfl⟩

/-! ## A word at the start -/

/-- A run that starts with the word goes on to its end and no further. -/
theorem IsField.stop_eq {word : List Char} {f : Span} (h : IsField delims (word ++ cs) f)
    (hword : ∀ c ∈ word, c ∉ delims) (hhead : ∀ c, cs.head? = some c → c ∈ delims) (hzero : f.start = 0) :
    f.stop = word.length := by
  obtain hlt | heq | hgt := Nat.lt_trichotomy f.stop word.length
  · have hc : (word ++ cs)[f.stop]? = some word[f.stop] := by
      rw [List.getElem?_append_left hlt, List.getElem?_eq_getElem hlt]
    exact absurd (h.behind _ hc) (hword _ (List.getElem_mem hlt))
  · exact heq
  · have hlength := Nat.lt_of_lt_of_le hgt h.stop_le
    have hc := List.getElem?_eq_getElem hlength
    have hin := h.inside _ _ (hzero.le.trans (Nat.zero_le _)) hgt hc
    rw [List.getElem?_append_right (Nat.le_refl _), Nat.sub_self, ← List.head?_eq_getElem?] at hc
    exact absurd (hhead _ hc) hin

/-- A run that starts later has a delimiter before it, so it starts behind the word. -/
theorem IsField.length_lt_start {word : List Char} {f : Span} (h : IsField delims (word ++ cs) f)
    (hword : ∀ c ∈ word, c ∉ delims) (hpos : 0 < f.start) : word.length < f.start := by
  obtain ⟨i, hi⟩ := Nat.exists_eq_add_one_of_ne_zero hpos.ne'
  refine Nat.lt_of_not_le fun hle => ?_
  have hlt : i < word.length := by omega
  have hc : (word ++ cs)[i]? = some word[i] := by
    rw [List.getElem?_append_left hlt, List.getElem?_eq_getElem hlt]
  exact hword _ (List.getElem_mem hlt) (h.before i _ hi.symm hc)

/-- A word and the fields behind it, where the word ends with the text or before a delimiter. -/
theorem Fields.append_word {fields : List Span} (h : Fields delims cs fields) (word : List Char) (hne : word ≠ [])
    (hword : ∀ c ∈ word, c ∉ delims) (hhead : ∀ c, cs.head? = some c → c ∈ delims) :
    Fields delims (word ++ cs) (⟨0, word.length⟩ :: fields.map (Span.shift word.length)) where
  ordered := by
    rw [List.pairwise_cons, List.pairwise_map]
    refine ⟨fun f hf => ?_, h.ordered.imp fun hlt => Nat.add_lt_add_left hlt _⟩
    obtain ⟨g, hg, rfl⟩ := List.mem_map.mp hf
    exact Nat.lt_add_of_pos_right (((h.mem_iff g).mp hg).start_pos hhead)
  mem_iff f := by
    rw [List.mem_cons, List.mem_map]
    constructor
    · rintro (rfl | ⟨g, hg, rfl⟩)
      · refine ⟨List.length_pos_of_ne_nil hne, by simp, fun i c _ hi hc => ?_, fun i c hi => ?_, fun c hc => ?_⟩
        · rw [List.getElem?_append_left hi] at hc
          exact hword c (List.mem_of_getElem? hc)
        · exact absurd hi (Nat.succ_ne_zero i)
        · rw [List.getElem?_append_right (Nat.le_refl _), Nat.sub_self, ← List.head?_eq_getElem?] at hc
          exact hhead c hc
      · have hg := (h.mem_iff g).mp hg
        exact hg.shift word fun hzero => absurd hzero (hg.start_pos hhead).ne'
    · intro hf
      obtain hzero | hpos := Nat.eq_zero_or_pos f.start
      · have hstop := hf.stop_eq hword hhead hzero
        exact .inl (by rw [← hzero, ← hstop])
      · have hstart := (hf.length_lt_start hword hpos).le
        obtain ⟨g, rfl⟩ := Span.eq_shift hstart (hstart.trans hf.start_lt.le)
        exact .inr ⟨g, (h.mem_iff g).mpr (hf.of_shift word), rfl⟩

/-! ## The scan -/

/-- The text of a field and the line from its start on. -/
def Span.cut (f : Span) (cs : List Char) : List Char × List Char := (f.text cs, f.rest cs)

theorem map_cut_shift (fields : List Span) (pre cs : List Char) :
    (fields.map (Span.shift pre.length)).map (fun f => f.cut (pre ++ cs)) = fields.map fun f => f.cut cs := by
  rw [List.map_map]
  refine List.map_congr_left fun f _ => ?_
  rw [Function.comp_apply, Span.cut, Span.text_shift, Span.rest_shift, Span.cut]

theorem cut_word (word cs : List Char) : (⟨0, word.length⟩ : Span).cut (word ++ cs) = (word, word ++ cs) := by
  rw [Span.cut, Span.text, Span.rest, List.take_left, List.drop_zero, List.drop_zero]

/-- Reading a line from left to right finds its fields. -/
theorem exists_fields (delims cs : List Char) :
    ∃ fields, Fields delims cs fields ∧ fieldsWithRest delims cs = fields.map fun f => f.cut cs := by
  fun_induction fieldsWithRest delims cs with
  | case1 => exact ⟨[], Fields.nil, rfl⟩
  | case2 d cs hd ih =>
    obtain ⟨fields, hfields, heq⟩ := ih
    refine ⟨_, hfields.cons_delim (List.contains_iff_mem.mp hd), ?_⟩
    rw [heq]
    exact (map_cut_shift fields [d] cs).symm
  | case3 c cs hc ih =>
    obtain ⟨fields, hfields, heq⟩ := ih
    have hword : ∀ d ∈ c :: cs.takeWhile (fun d => !delims.contains d), d ∉ delims := by
      rintro d hd hmem
      obtain rfl | hd := List.mem_cons.mp hd
      · exact hc (List.contains_iff_mem.mpr hmem)
      · have hno := List.mem_takeWhile_imp hd
        rw [List.contains_iff_mem.mpr hmem] at hno
        cases hno
    have hhead : ∀ d, (cs.dropWhile fun d => !delims.contains d).head? = some d → d ∈ delims := by
      intro d hd
      have hstop := List.head?_dropWhile_not (fun d => !delims.contains d) cs
      rw [hd] at hstop
      exact List.contains_iff_mem.mp (by simpa using hstop)
    have hall := hfields.append_word _ (List.cons_ne_nil _ _) hword hhead
    have hcut := cut_word (c :: cs.takeWhile fun d => !delims.contains d) (cs.dropWhile fun d => !delims.contains d)
    have hrest := map_cut_shift fields (c :: cs.takeWhile fun d => !delims.contains d)
      (cs.dropWhile fun d => !delims.contains d)
    rw [List.cons_append, List.takeWhile_append_dropWhile] at hall hcut hrest
    exact ⟨_, hall, by rw [List.map_cons, hcut, hrest, heq]⟩

/-! ## What a line gives -/

/-- A line is passed over that has no field, or whose first field starts with the character of comments. -/
def PassedOver (options : LineOptions) (cs : List Char) (fields : List Span) : Prop :=
  fields = [] ∨ ∃ f c, fields.head? = some f ∧ options.eol = some c ∧ cs[f.start]? = some c

/-- The text of field `n`, counted from one, and no text where there are fewer fields. -/
def fieldText (cs : List Char) (fields : List Span) (n : Nat) : String :=
  ((fields[n - 1]?).map fun f => String.ofList (f.text cs)).getD ""

/-- The line from the start of the field behind field `n` on. -/
def textBehind (cs : List Char) (fields : List Span) (n : Nat) : String :=
  ((fields[n]?).map fun f => String.ofList (f.rest cs)).getD ""

/-- The values that are asked for: a field for each number, and what comes behind the largest of them. -/
def values (options : LineOptions) (cs : List Char) (fields : List Span) : List String :=
  options.tokens.map (fieldText cs fields) ++
    if options.rest then [textBehind cs fields (options.tokens.max?.getD 0)] else []

/-- The largest number of a list in order is the last one. -/
theorem getLast?_eq_max? {ns : List Nat} (h : ns.Pairwise (· < ·)) : ns.getLast? = ns.max? := by
  cases hlast : ns.getLast? with
  | none =>
    rw [List.getLast?_eq_none_iff] at hlast
    rw [hlast, List.max?_nil]
  | some m =>
    obtain ⟨before, rfl⟩ := List.getLast?_eq_some_iff.mp hlast
    symm
    rw [List.max?_eq_some_iff]
    refine ⟨by simp, fun n hn => ?_⟩
    obtain hn | hn := List.mem_append.mp hn
    · exact ((List.pairwise_append.mp h).2.2 n hn m (List.mem_singleton_self m)).le
    · exact (List.mem_singleton.mp hn).le

theorem passedOver_cons {options : LineOptions} {f : Span} {fields : List Span} : PassedOver options cs (f :: fields) ↔
    (options.eol.map fun e => (f.rest cs).head? == some e).getD false = true := by
  rw [Span.rest, List.head?_drop, PassedOver, List.head?_cons]
  cases options.eol <;> simp

/-- The values of a line, told by what the scan found. -/
theorem split_of_scan {options : LineOptions} {line : String} {found : List (List Char × List Char)}
    (h : fieldsWithRest options.delims line.toList = found) (hne : found ≠ []) : options.split line =
      if (options.eol.map fun e => (found.head hne).2.head? == some e).getD false then none
      else some (options.tokens.map (fun n => (found[n - 1]?.map fun f => String.ofList f.1).getD "") ++
        if options.rest then [(found[options.tokens.getLast?.getD 0]?.map fun f => String.ofList f.2).getD ""]
        else []) := by
  obtain ⟨⟨first, start⟩, more, rfl⟩ := List.exists_cons_of_ne_nil hne
  rw [split, h]
  cases options.rest <;> simp

/-- What a line gives, told by its fields. -/
theorem split_eq {options : LineOptions} (hsorted : options.tokens.Pairwise (· < ·)) {line : String}
    {fields : List Span} (h : Fields options.delims line.toList fields) :
    (options.split line = none ↔ PassedOver options line.toList fields) ∧
      (¬ PassedOver options line.toList fields → options.split line = some (values options line.toList fields)) := by
  obtain ⟨fields', hfields', hscan⟩ := exists_fields options.delims line.toList
  obtain rfl := hfields'.unique h
  cases fields' with
  | nil =>
    rw [split, hscan]
    exact ⟨iff_of_true rfl (.inl rfl), fun hno => absurd (.inl rfl) hno⟩
  | cons f more =>
    have hsplit : options.split line =
        if (options.eol.map fun e => (f.rest line.toList).head? == some e).getD false then none
        else some (values options line.toList (f :: more)) := by
      rw [split_of_scan hscan (by simp), values, ← getLast?_eq_max? hsorted]
      simp only [List.getElem?_map, Option.map_map]
      rfl
    rw [hsplit, passedOver_cons]
    exact ⟨by simp, fun hno => if_neg hno⟩

/-- **The values of a line.** An option text that is accepted asks for fields with the numbers 1 to 31, in order. A line
has its fields in one way. It is passed over exactly if it has none or its first one starts a comment, and any other line
gives a value for each number and, if that is asked for, what comes behind the largest one. -/
theorem split_of_parse {text : String} {options : LineOptions} (h : parse text = .ok options) (line : String) :
    options.tokens.Pairwise (· < ·) ∧ (∀ n ∈ options.tokens, 1 ≤ n ∧ n ≤ 31) ∧
      (∃! fields, Fields options.delims line.toList fields) ∧
      ∀ fields, Fields options.delims line.toList fields →
        (options.split line = none ↔ PassedOver options line.toList fields) ∧
        (¬ PassedOver options line.toList fields →
          options.split line = some (values options line.toList fields)) := by
  obtain ⟨hsorted, hrange, -⟩ := asks_of_parse h
  obtain ⟨fields, hfields, -⟩ := exists_fields options.delims line.toList
  exact ⟨hsorted, hrange, ⟨fields, hfields, fun _ hother => hother.unique hfields⟩, fun _ => split_eq hsorted⟩

/-- Two fields, asked for in the other order, and the rest of the line with a delimiter in it. -/
theorem split_of_parse_starred : parse "tokens=2,1* delims=," = .ok ⟨some ';', 0, [','], [1, 2], true, false⟩ ∧
    split ⟨some ';', 0, [','], [1, 2], true, false⟩ "a,,b c,d,e" = some ["a", "b c", "d,e"] := by
  have htext : "tokens=2,1* delims=,".toList = "tokens=".toList ++ "2,1* delims=,".toList := rfl
  have hsorted : sortedNumbers [2, 1] = [1, 2] := by
    simp [sortedNumbers, List.mergeSort, List.eraseReps, List.eraseRepsBy, List.eraseRepsBy.loop]
  have hparts : readParts (pieces (· == ',') "2,1*") = .ok (some ([2, 1], true)) := by decide +kernel
  have hlist : tokenList? "2,1*" = .ok (some ([1, 2], true)) := by simp [tokenList?, hparts, hsorted]
  have htokens : Reads standard ("tokens=".toList ++ "2,1* delims=,".toList)
      { standard with tokens := [1, 2], rest := true } (' ' :: ("delims=".toList ++ [','])) := .tokens rfl hlist
  have hword : Spells "delims=".toList "delims=" := rfl
  have hdelims : Reads { standard with tokens := [1, 2], rest := true } ("delims=".toList ++ [','])
      ⟨some ';', 0, [','], [1, 2], true, false⟩ [] := .delims hword [',']
  have hparse : parse "tokens=2,1* delims=," = .ok ⟨some ';', 0, [','], [1, 2], true, false⟩ := by
    rw [parse, htext, htokens.parseFrom, parseFrom_blank rfl, hdelims.parseFrom, parseFrom_nil]
  have hdelim {cs : List Char} {fields : List Span} (h : Fields [','] cs fields) := h.cons_delim (d := ',') (by decide)
  have hlast : Fields [','] "d,e".toList [⟨0, 1⟩, ⟨2, 3⟩] :=
    (hdelim (Fields.nil.append_word ['e'] (by simp) (by simp) (by simp))).append_word ['d'] (by simp) (by simp)
      (by simp)
  have hmiddle : Fields [','] "b c,d,e".toList [⟨0, 3⟩, ⟨4, 5⟩, ⟨6, 7⟩] :=
    (hdelim hlast).append_word ['b', ' ', 'c'] (by simp) (by simp) (by simp)
  have hfields : Fields [','] "a,,b c,d,e".toList [⟨0, 1⟩, ⟨3, 6⟩, ⟨7, 8⟩, ⟨9, 10⟩] :=
    (hdelim (hdelim hmiddle)).append_word ['a'] (by simp) (by simp) (by simp)
  have hkept : ¬ PassedOver ⟨some ';', 0, [','], [1, 2], true, false⟩ "a,,b c,d,e".toList
      [⟨0, 1⟩, ⟨3, 6⟩, ⟨7, 8⟩, ⟨9, 10⟩] := by
    rw [passedOver_cons]
    decide
  exact ⟨hparse, ((split_of_parse hparse "a,,b c,d,e").2.2.2 _ hfields).2 hkept⟩

end BatchShell.Loop.LineOptions
