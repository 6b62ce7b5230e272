import BatchShell.Proofs.Engine.Transparency
import BatchShell.Proofs.Token.Words

/-!
# References and blanks

A line is divided into words first, and each word is expanded by itself, so no reference reaches over a blank.
`expandWords` is what comes of a line of words in this way (`scanFrom_expandTokens`). Expanding the line as a whole
can give something else, because there a percent sign is closed by the next one, whatever stands between them.

* `atPercent` is one step of the expansion: what takes the place of a percent sign, and what is left. All steps are
  taken at one moment here.
* `atPercent_append`: a word before white space takes the same step in the line as by itself, unless it takes white
  space along.
* `expandWords_eq`: where no percent sign of the line takes white space along, both ways agree.
* `expansion_divided`: the words of a line and the line itself; `replacement_with_blank`: an edit with a blank in it
  is lost.
-/
namespace BatchShell.Expansion

variable (files : FileTree) (now : Ambient) (s : State)

/-! ## Pieces -/

/-- One piece behind another, unless one of them breaks off. -/
def joined (first next : Except Crash (List Char)) : Except Crash (List Char) :=
  first.bind fun cs => next.map (cs ++ ·)

@[simp] theorem joined_ok (cs : List Char) (next : Except Crash (List Char)) :
    joined (.ok cs) next = next.map (cs ++ ·) := rfl

theorem joined_nil (next : Except Crash (List Char)) : joined (.ok []) next = next := by cases next <;> rfl

theorem joined_assoc (first second third : Except Crash (List Char)) :
    joined (joined first second) third = joined first (joined second third) := by
  cases first <;> cases second <;> cases third <;> simp [joined, Except.bind]

theorem map_cons_joined (c : Char) (first next : Except Crash (List Char)) :
    (joined first next).map (c :: ·) = joined (first.map (c :: ·)) next := by
  cases first <;> cases next <;> rfl

/-! ## One percent sign -/

/-- What takes the place of a percent sign before `cs`, and what is left of `cs`. -/
def atPercent (cs : List Char) : Except Crash (List Char) × List Char :=
  match if s.inBatch then parameter? files s cs else none with
  | some (value, rest) => (.ok value.toList, rest)
  | none =>
    match enclosed? cs with
    | some (body, rest) =>
      match expandReference? now s (String.ofList body) with
      | .error why => (.error why, rest)
      | .ok (some value) => (.ok value.toList, rest)
      | .ok none => if s.inBatch then (.ok [], rest) else (.ok ['%'], cs)
    | none => (.ok (if s.inBatch then [] else ['%']), cs)

/-- Expand a text at one moment. -/
def expandAt (cs : List Char) : Except Crash (List Char) := expandFrom files (fun _ => now) s cs

theorem expandAt_nil : expandAt files now s [] = .ok [] := by rw [expandAt, expandFrom]

theorem expandAt_append {cs : List Char} (h : '%' ∉ cs) (rest : List Char) :
    expandAt files now s (cs ++ rest) = (expandAt files now s rest).map (cs ++ ·) :=
  expandFrom_append files _ s h rest

theorem expandAt_of_not_mem {cs : List Char} (h : '%' ∉ cs) : expandAt files now s cs = .ok cs :=
  expandFrom_of_not_mem files _ s h

theorem toList_expandPercent (text : String) :
    (expandPercent files (fun _ => now) s text).map String.toList = expandAt files now s text.toList := by
  rw [expandPercent, Except.map_map, expandAt]
  cases expandFrom files (fun _ => now) s text.toList <;> simp

theorem expandFrom_percent (now : Nat → Ambient) (cs : List Char) : expandFrom files now s ('%' :: cs) =
    joined (atPercent files (now cs.length) s cs).1
      (expandFrom files now s (atPercent files (now cs.length) s cs).2) := by
  rw [expandFrom, if_neg (by decide)]
  unfold atPercent
  split
  · rename_i h
    rw [h]
    rfl
  · rename_i h
    rw [h]
    split
    · rename_i h'
      simp only [h']
      rcases expandReference? (now cs.length) s _ with why | _ | value
      · rfl
      · cases s.inBatch
        · rfl
        · exact (joined_nil _).symm
      · rfl
    · rename_i h'
      simp only [h']
      cases s.inBatch
      · rfl
      · exact (joined_nil _).symm

theorem expandAt_percent (cs : List Char) : expandAt files now s ('%' :: cs) =
    joined (atPercent files now s cs).1 (expandAt files now s (atPercent files now s cs).2) :=
  expandFrom_percent files s (fun _ => now) cs

theorem length_atPercent_le (cs : List Char) : (atPercent files now s cs).2.length ≤ cs.length := by
  unfold atPercent
  split
  · rename_i h
    split at h
    · exact (length_parameter?_lt h).le
    · cases h
  · split
    · rename_i h
      have hrest := length_enclosed?_lt h
      split
      · exact hrest.le
      · exact hrest.le
      · split
        · exact hrest.le
        · exact Nat.le_refl _
    · exact Nat.le_refl _

/-- What each percent sign takes along: a parameter, a reference with the sign that closes it, or nothing. -/
def taken (cs : List Char) : List (List Char) :=
  match cs with
  | [] => []
  | c :: cs =>
    if c == '%' then
      cs.take (cs.length - (atPercent files now s cs).2.length) :: taken (atPercent files now s cs).2
    else taken cs
  termination_by cs.length
  decreasing_by
    · exact Nat.lt_succ_of_le (length_atPercent_le files now s cs)
    · exact Nat.lt_succ_self _

/-- The two percent signs of a reference are the first two of the text, and something is between them. -/
theorem enclosed?_eq_some_iff {cs body rest : List Char} : enclosed? cs = some (body, rest) ↔
    cs = body ++ '%' :: rest ∧ body ≠ [] ∧ ∀ c ∈ body, endsReference c = false := by
  constructor
  · intro h
    simp only [enclosed?] at h
    split at h
    · rename_i heq
      split at h
      · cases h
      · rename_i hbody
        cases h
        refine ⟨?_, by simpa using hbody, ?_⟩
        · rw [← heq, List.takeWhile_append_dropWhile]
        · intro c hc
          simpa using List.mem_takeWhile_imp hc
    · cases h
  · rintro ⟨rfl, hbody, hinside⟩
    have hinside : ∀ c ∈ body, (!endsReference c) = true := fun c hc => by rw [hinside c hc]; rfl
    simp only [enclosed?, List.takeWhile_append_of_pos hinside, List.dropWhile_append_of_pos hinside]
    simp [endsReference, hbody]

/-! ## A word before white space -/

section

variable {c : Char} {word after : List Char}

theorem isGap_spec (h : isGap c = true) : c ≠ '%' ∧ c.isDigit = false ∧ c ≠ '*' ∧ c ≠ '~' ∧ isModifier c = false := by
  simp only [isGap, Bool.or_eq_true, beq_iff_eq] at h
  rcases h with (rfl | rfl) | rfl <;> decide

/-- A parameter ends before white space. -/
theorem parameter?_append (hafter : StartsApart after) : parameter? files s (word ++ after) =
    (parameter? files s word).map fun found => (found.1, found.2 ++ after) := by
  cases word with
  | nil =>
    cases after with
    | nil => rfl
    | cons c after =>
      obtain ⟨hpercent, hdigit, hstar, htilde, -⟩ := isGap_spec (hafter c after rfl)
      simp [parameter?, hpercent, hdigit, hstar, htilde]
  | cons c word =>
    have hstop : after.dropWhile isModifier = after := by
      cases after with
      | nil => rfl
      | cons d after => rw [List.dropWhile_cons_of_neg (by simp [isGap_spec (hafter d after rfl)])]
    rw [List.cons_append]
    simp only [parameter?]
    split
    · rfl
    split
    · rfl
    split
    · rfl
    split
    · -- a parameter with modifiers: they end in the word, or the word ends with them
      by_cases hall : ∀ d ∈ word, isModifier d = true
      · have hword : word.dropWhile isModifier = [] := List.dropWhile_eq_nil_iff.mpr hall
        rw [List.dropWhile_append_of_pos hall, hstop, hword]
        cases after with
        | nil => rfl
        | cons d after => simp [isGap_spec (hafter d after rfl)]
      · have hword : word.dropWhile isModifier ≠ [] := fun h => hall (List.dropWhile_eq_nil_iff.mp h)
        obtain ⟨d, rest, hrest⟩ := List.exists_cons_of_ne_nil hword
        have hdrop : (word ++ after).dropWhile isModifier = d :: (rest ++ after) := by
          rw [List.dropWhile_append, if_neg (by simp [hrest]), hrest]
          rfl
        have htake : (word ++ after).takeWhile isModifier = word.takeWhile isModifier := by
          rw [List.takeWhile_append, if_neg]
          intro hlength
          have hsum := congrArg List.length (List.takeWhile_append_dropWhile (p := isModifier) (l := word))
          rw [List.length_append, hlength, hrest, List.length_cons] at hsum
          omega
        rw [hdrop, htake, hrest]
        dsimp only
        split <;> rfl
    · rfl

/-- A reference that is closed in the line and not in its word has white space in it. -/
theorem gap_of_enclosed? {body rest : List Char} (hafter : StartsApart after) (hword : enclosed? word = none)
    (h : enclosed? (word ++ after) = some (body, rest)) : ∃ c ∈ body, isGap c = true := by
  obtain ⟨heq, hbody, hinside⟩ := enclosed?_eq_some_iff.mp h
  have hclose : ∀ more, after ≠ '%' :: more := by
    intro more hmore
    exact absurd (hafter '%' more hmore) (by decide)
  obtain ⟨more, rfl, hmore⟩ | ⟨more, rfl, hmore⟩ := List.append_eq_append_iff.mp heq
  · cases more with
    | nil => cases hclose rest hmore
    | cons c more => exact ⟨c, by simp, hafter c _ hmore⟩
  · cases more with
    | nil => cases hclose rest hmore.symm
    | cons c more =>
      cases hmore
      cases hword.symm.trans (enclosed?_eq_some_iff.mpr ⟨rfl, hbody, hinside⟩)

/-- A percent sign that takes no white space along does in the line what it does in its word. -/
theorem atPercent_append (hafter : StartsApart after) (h : ∀ c ∈ (word ++ after).take
      ((word ++ after).length - (atPercent files now s (word ++ after)).2.length), isGap c = false) :
    atPercent files now s (word ++ after) =
      ((atPercent files now s word).1, (atPercent files now s word).2 ++ after) := by
  have hparam : (if s.inBatch then parameter? files s (word ++ after) else none) =
      (if s.inBatch then parameter? files s word else none).map fun found => (found.1, found.2 ++ after) := by
    rw [parameter?_append files s hafter]
    cases s.inBatch <;> rfl
  cases hfound : if s.inBatch then parameter? files s word else none with
  | some found => simp only [atPercent, hparam, hfound, Option.map_some]
  | none =>
    rw [hfound, Option.map_none] at hparam
    cases hword : enclosed? word with
    | some found =>
      obtain ⟨heq, hbody, hinside⟩ := enclosed?_eq_some_iff.mp hword
      have hline : enclosed? (word ++ after) = some (found.1, found.2 ++ after) :=
        enclosed?_eq_some_iff.mpr ⟨by rw [heq, List.append_assoc]; rfl, hbody, hinside⟩
      simp only [atPercent, hparam, hfound, hword, hline]
      rcases expandReference? now s (String.ofList found.1) with why | _ | value
      · rfl
      · cases s.inBatch <;> rfl
      · rfl
    | none =>
      cases hline : enclosed? (word ++ after) with
      | none => simp only [atPercent, hparam, hfound, hword, hline]
      | some found =>
        -- closed outside its word: it has white space in it, so it is not taken
        obtain ⟨c, hc, hgap⟩ := gap_of_enclosed? hafter hword hline
        have hrest : (atPercent files now s (word ++ after)).2 ≠ found.2 := by
          intro hrest
          have htaken : c ∈ (found.1 ++ '%' :: found.2).take
              ((found.1 ++ '%' :: found.2).length - found.2.length) := by
            have hlength : (found.1 ++ '%' :: found.2).length - found.2.length = found.1.length + 1 := by
              simp only [List.length_append, List.length_cons]
              omega
            rw [hlength, List.take_append, List.take_of_length_le (Nat.le_succ _)]
            exact List.mem_append_left _ hc
          rw [hrest, (enclosed?_eq_some_iff.mp hline).1] at h
          cases hgap.symm.trans (h c htaken)
        simp only [atPercent, hparam, hfound, hword, hline] at hrest ⊢
        rcases hvalue : expandReference? now s (String.ofList found.1) with why | _ | value
        · simp [hvalue] at hrest
        · rw [hvalue] at hrest
          cases hbatch : s.inBatch with
          | true => simp [hbatch] at hrest
          | false => rfl
        · simp [hvalue] at hrest

end

/-! ## Word by word -/

/-- Expand every run of characters without white space by itself. -/
def expandWords (cs : List Char) : Except Crash (List Char) :=
  match cs with
  | [] => .ok []
  | c :: cs =>
    if isGap c then (expandWords cs).map (c :: ·)
    else
      joined (expandAt files now s ((c :: cs).takeWhile fun d => !isGap d))
        (expandWords ((c :: cs).dropWhile fun d => !isGap d))
  termination_by cs.length
  decreasing_by
    · exact Nat.lt_succ_self _
    · rename_i hgap
      rw [List.dropWhile_cons_of_pos (by simpa using hgap)]
      exact Nat.lt_succ_of_le (List.dropWhile_suffix _).length_le

/-- No percent sign of the text takes white space along. -/
def Unbroken (cs : List Char) : Prop := ∀ text ∈ taken files now s cs, ∀ c ∈ text, isGap c = false

section

variable {files now s} {c : Char} {cs word after : List Char}

theorem unbroken_cons (hc : c ≠ '%') : Unbroken files now s (c :: cs) ↔ Unbroken files now s cs := by
  rw [Unbroken, taken, if_neg (by simpa using hc), Unbroken]

theorem unbroken_percent : Unbroken files now s ('%' :: cs) ↔
    (∀ c ∈ cs.take (cs.length - (atPercent files now s cs).2.length), isGap c = false) ∧
      Unbroken files now s (atPercent files now s cs).2 := by
  rw [Unbroken, taken, if_pos (beq_self_eq_true '%'), List.forall_mem_cons, Unbroken]

/-- White space after a word divides what expansion does. -/
theorem expandAt_divided (hafter : StartsApart after) (h : Unbroken files now s (word ++ after)) :
    expandAt files now s (word ++ after) = joined (expandAt files now s word) (expandAt files now s after) ∧
      Unbroken files now s after := by
  induction hn : word.length using Nat.strong_induction_on generalizing word with
  | _ n ih =>
    cases word with
    | nil => exact ⟨by rw [expandAt_nil, joined_nil, List.nil_append], h⟩
    | cons c word =>
      rw [List.length_cons] at hn
      rw [List.cons_append] at h ⊢
      by_cases hc : c = '%'
      · subst hc
        obtain ⟨htaken, hrest⟩ := unbroken_percent.mp h
        have hstep := atPercent_append files now s hafter htaken
        have hshorter := length_atPercent_le files now s word
        rw [hstep] at hrest
        obtain ⟨hboth, hunbroken⟩ := ih _ (by omega) hrest rfl
        refine ⟨?_, hunbroken⟩
        rw [expandAt_percent, hstep, hboth, expandAt_percent, joined_assoc]
      · obtain ⟨hboth, hunbroken⟩ := ih _ (by omega) ((unbroken_cons hc).mp h) rfl
        refine ⟨?_, hunbroken⟩
        have hsingle : '%' ∉ [c] := by simpa using Ne.symm hc
        have hcons := expandAt_append files now s hsingle
        have hline := hcons (word ++ after)
        have hword := hcons word
        simp only [List.singleton_append] at hline hword
        rw [hline, hword, hboth, map_cons_joined]

theorem startsApart_dropWhile (cs : List Char) : StartsApart (cs.dropWhile fun d => !isGap d) := by
  intro c rest h
  have hhead := List.head?_dropWhile_not (fun d => !isGap d) cs
  rw [h] at hhead
  simpa using hhead

/-- **Where no percent sign takes white space along, the line can be expanded word by word.** -/
theorem expandWords_eq (h : Unbroken files now s cs) : expandWords files now s cs = expandAt files now s cs := by
  fun_induction expandWords files now s cs with
  | case1 => rw [expandAt_nil]
  | case2 c cs hgap ih =>
    have hc := (isGap_spec hgap).1
    have hsingle : '%' ∉ [c] := by simpa using Ne.symm hc
    rw [ih ((unbroken_cons hc).mp h)]
    exact (expandAt_append files now s hsingle cs).symm
  | case3 c cs hgap ih =>
    rw [← List.takeWhile_append_dropWhile (p := fun d => !isGap d) (l := c :: cs)] at h
    obtain ⟨hboth, hrest⟩ := expandAt_divided (startsApart_dropWhile (c :: cs)) h
    rw [ih hrest, ← hboth, List.takeWhile_append_dropWhile]

end

/-! ## Lines of words -/

/-- The signs that end a word or give it quotes and carets. A line without them has only words in it, divided by
white space. -/
def lineSigns : List Char := ['\n', '"', '^', '&', '|', '<', '>', '(', ')']

section

variable {c : Char} {cs : List Char}

theorem next_of_not_mem_lineSigns (hc : c ∉ lineSigns) (hgap : isGap c = false) (inBlock : Bool) :
    WordMode.plain.next inBlock c = some .plain := by
  simp only [lineSigns, List.mem_cons, List.not_mem_nil, or_false, not_or] at hc
  simp only [isGap, Bool.or_eq_false_iff, beq_eq_false_iff_ne] at hgap
  simp [WordMode.next, endsWord, hc, hgap]

theorem redirectAt?_of_not_mem_lineSigns (h : ∀ d ∈ c :: cs, d ∉ lineSigns) : redirectAt? c cs = none := by
  have hsign : ∀ d ∈ c :: cs, d ≠ '<' ∧ d ≠ '>' := by
    intro d hd
    have hno := h d hd
    simp only [lineSigns, List.mem_cons, not_or] at hno
    exact ⟨hno.2.2.2.2.2.1, hno.2.2.2.2.2.2.1⟩
  have hc := hsign c List.mem_cons_self
  have hnext : ∀ d, cs.head? = some d → d ≠ '<' ∧ d ≠ '>' := by
    intro d hd
    exact hsign d (List.mem_cons_of_mem c (List.mem_of_head? hd))
  have hless : cs.head? ≠ some '<' := fun hd => (hnext _ hd).1 rfl
  have hmore : cs.head? ≠ some '>' := fun hd => (hnext _ hd).2 rfl
  simp only [redirectAt?, beq_iff_eq, hc, hless, hmore, if_false]
  split <;> rfl

/-- A word without quotes and carets ends at white space. -/
theorem scanWord_of_not_mem_lineSigns (h : ∀ d ∈ cs, d ∉ lineSigns) :
    ∃ w, scanWord false .plain ⟨[], 0, 0, false⟩ cs = (w, cs.dropWhile fun d => !isGap d) ∧
      w.text.reverse = cs.takeWhile fun d => !isGap d := by
  have hword : ∀ d ∈ cs.takeWhile (fun d => !isGap d), WordMode.plain.next false d = some .plain := by
    intro d hd
    have hgap : isGap d = false := by simpa using List.mem_takeWhile_imp hd
    exact next_of_not_mem_lineSigns (h d ((List.takeWhile_prefix _).subset hd)) hgap false
  obtain ⟨w, hscan, htext⟩ := scanWord_append hword ⟨[], 0, 0, false⟩ (cs.dropWhile fun d => !isGap d)
  refine ⟨w, ?_, by rw [htext]; simp⟩
  rw [List.takeWhile_append_dropWhile] at hscan
  rw [hscan]
  cases hafter : cs.dropWhile (fun d => !isGap d) with
  | nil => rfl
  | cons d after => rw [scanWord, isGap_next (startsApart_dropWhile cs d after hafter)]

end

/-- **The words of a line are expanded one by one.** What was read before stays, and the white space at the end of
the line belongs to no word. -/
theorem scanFrom_expandTokens (cs : List Char) (h : ∀ d ∈ cs, d ∉ lineSigns) (pos : Nat) (leading : List Char)
    (done : List Token) (hleading : ∀ d ∈ leading, isGap d = true) :
    ∃ new trailing, scanFrom 0 pos leading done cs = done.reverse ++ new ∧ (∀ d ∈ trailing, isGap d = true) ∧
      (expandTokens files (fun _ => now) s new).map (fun ts => (rawText ts).toList ++ trailing) =
        (expandWords files now s cs).map (leading.reverse ++ ·) := by
  fun_induction expandWords files now s cs generalizing pos leading done with
  | case1 =>
    refine ⟨[], leading.reverse, by simp [scanFrom], by simpa using hleading, ?_⟩
    simp [expandTokens, rawText, pure, Except.pure]
  | case2 c cs hgap ih =>
    obtain ⟨new, trailing, hscan, htrailing, htext⟩ := ih (fun d hd => h d (List.mem_cons_of_mem c hd)) (pos + 1)
      (c :: leading) done (List.forall_mem_cons.mpr ⟨hgap, hleading⟩)
    refine ⟨new, trailing, (scanFrom_gap hgap).trans hscan, htrailing, ?_⟩
    rw [htext, Except.map_map]
    simp
  | case3 c cs hgap ih =>
    rw [Bool.not_eq_true] at hgap
    obtain ⟨w, hword, hw⟩ := scanWord_of_not_mem_lineSigns h
    obtain ⟨t, pos', ht, hstep⟩ := scanFrom_word 0 pos leading done
      (next_of_not_mem_lineSigns (h c List.mem_cons_self) hgap _) (redirectAt?_of_not_mem_lineSigns h) hword
    obtain ⟨new, trailing, hscan, htrailing, htext⟩ := ih
      (fun d hd => h d ((List.dropWhile_suffix _).subset hd)) pos' [] (t :: done) (by simp)
    refine ⟨t :: new, trailing, ?_, htrailing, ?_⟩
    · rw [hstep, hscan, List.reverse_cons, List.append_assoc]
      rfl
    · obtain ⟨hlead, quoted, hlexeme⟩ := ht
      have hexpand : expandToken files (fun _ => now) s t =
          (expandAt files now s ((c :: cs).takeWhile fun d => !isGap d)).map fun text =>
            { t with lexeme := .word (String.ofList text) quoted } := by
        rw [expandToken, hlexeme]
        dsimp only
        rw [expandPercent, hw, String.toList_ofList, Except.map_map]
        rfl
      rw [expandTokens_cons, hexpand]
      cases expandAt files now s ((c :: cs).takeWhile fun d => !isGap d) with
      | error why => rfl
      | ok text =>
        revert htext
        cases expandTokens files (fun _ => now) s new <;>
          cases expandWords files now s ((c :: cs).dropWhile fun d => !isGap d) <;> intro htext <;> cases htext
        · rfl
        · exact congrArg Except.ok (by simp [hlead, Token.text, Lexeme.text])

/-! ## A reference with white space in it -/

/-- What is left of a percent sign that stands for nothing. -/
def loneSign : List Char := if s.inBatch then [] else ['%']

section

variable {files now s} {c : Char} {cs before after : List Char}

theorem atPercent_lone (hparam : s.inBatch = true → parameter? files s cs = none) (h : '%' ∉ cs) :
    atPercent files now s cs = (.ok (loneSign s), cs) := by
  have hnone : (if s.inBatch then parameter? files s cs else none) = none := by
    split
    · exact hparam ‹_›
    · rfl
  have hopen : enclosed? cs = none := by
    cases hfound : enclosed? cs with
    | none => rfl
    | some found =>
      obtain ⟨rfl, -, -⟩ := enclosed?_eq_some_iff.mp hfound
      simp at h
  simp only [atPercent, hnone, hopen, loneSign]

theorem unbroken_append (h : '%' ∉ before) :
    Unbroken files now s (before ++ cs) ↔ Unbroken files now s cs := by
  induction before with
  | nil => rfl
  | cons c before ih =>
    obtain ⟨hc, hbefore⟩ := not_or.mp (List.mem_cons.not.mp h)
    rw [List.cons_append, unbroken_cons (Ne.symm hc), ih hbefore]

/-- One percent sign that is no parameter takes nothing along. -/
theorem expandWords_lone (hbefore : '%' ∉ before) (hafter : '%' ∉ after)
    (hparam : s.inBatch = true → parameter? files s after = none) :
    expandWords files now s (before ++ '%' :: after) = .ok (before ++ (loneSign s ++ after)) := by
  have hstep : atPercent files now s after = (.ok (loneSign s), after) := atPercent_lone hparam hafter
  have hrest : Unbroken files now s after := by
    rw [← List.append_nil after, unbroken_append hafter, Unbroken, taken]
    simp
  have hunbroken : Unbroken files now s (before ++ '%' :: after) := by
    rw [unbroken_append hbefore, unbroken_percent, hstep]
    exact ⟨by simp, hrest⟩
  rw [expandWords_eq hunbroken, expandAt_append files now s hbefore, expandAt_percent, hstep,
    expandAt_of_not_mem files now s hafter]
  rfl

/-- White space divides a line into parts that have nothing to do with each other. -/
theorem expandWords_gap (hgap : isGap c = true) (before after : List Char) :
    expandWords files now s (before ++ c :: after) =
      joined (expandWords files now s before) ((expandWords files now s after).map (c :: ·)) := by
  fun_induction expandWords files now s before with
  | case1 =>
    rw [List.nil_append, expandWords, if_pos hgap, joined_nil]
  | case2 d before hd ih => rw [List.cons_append, expandWords, if_pos hd, ih, map_cons_joined]
  | case3 d before hd ih =>
    have hnone : (c :: after).takeWhile (fun d => !isGap d) = [] := by simp [hgap]
    have hall : (c :: after).dropWhile (fun d => !isGap d) = c :: after := by simp [hgap]
    have htake : (d :: before ++ c :: after).takeWhile (fun d => !isGap d) =
        (d :: before).takeWhile fun d => !isGap d := by
      rw [List.takeWhile_append, hnone, List.append_nil]
      split
      · exact (List.takeWhile_prefix _).eq_of_length ‹_› |>.symm
      · rfl
    have hdrop : (d :: before ++ c :: after).dropWhile (fun d => !isGap d) =
        ((d :: before).dropWhile fun d => !isGap d) ++ c :: after := by
      rw [List.dropWhile_append, hall]
      split
      · rename_i hempty
        rw [List.isEmpty_iff.mp hempty, List.nil_append]
      · rfl
    rw [List.cons_append, expandWords, if_neg hd, ← List.cons_append, htake, hdrop, ih, joined_assoc]

/-- The value of a reference with white space in it takes no place: its two percent signs are in different words. -/
theorem expandWords_broken {body : List Char} (hbefore : '%' ∉ before) (hbody : '%' ∉ body) (hafter : '%' ∉ after)
    (hgap : ∃ c ∈ body, isGap c = true) (hparam : s.inBatch = true →
      parameter? files s (body ++ '%' :: after) = none ∧ parameter? files s after = none) :
    expandWords files now s (before ++ '%' :: (body ++ '%' :: after)) =
      .ok (before ++ (loneSign s ++ (body ++ (loneSign s ++ after)))) := by
  obtain ⟨c, hc, hgap⟩ := hgap
  obtain ⟨first, last, rfl⟩ := List.append_of_mem hc
  simp only [List.mem_append, List.mem_cons, not_or] at hbody
  have hfirst : s.inBatch = true → parameter? files s first = none := by
    intro hbatch
    have hapart : StartsApart (c :: (last ++ '%' :: after)) := fun d rest h => by cases h; exact hgap
    have hnone := (hparam hbatch).1
    rw [List.append_assoc, List.cons_append, parameter?_append files s hapart] at hnone
    exact Option.map_eq_none_iff.mp hnone
  have hline : before ++ '%' :: (first ++ c :: last ++ '%' :: after) =
      (before ++ '%' :: first) ++ c :: (last ++ '%' :: after) := by simp
  rw [hline, expandWords_gap hgap, expandWords_lone hbefore hbody.1 hfirst,
    expandWords_lone hbody.2.2 hafter fun hbatch => (hparam hbatch).2]
  simp

/-- Over the whole line the value takes the place of the reference. -/
theorem expandAt_enclosed {body : List Char} {value : String} (hbefore : '%' ∉ before)
    (hbody : ∀ c ∈ body, endsReference c = false) (hne : body ≠ []) (hafter : '%' ∉ after)
    (hparam : s.inBatch = true → parameter? files s (body ++ '%' :: after) = none)
    (hvalue : expandReference? now s (String.ofList body) = .ok (some value)) :
    expandAt files now s (before ++ '%' :: (body ++ '%' :: after)) = .ok (before ++ (value.toList ++ after)) := by
  have hnone : (if s.inBatch then parameter? files s (body ++ '%' :: after) else none) = none := by
    split
    · exact hparam ‹_›
    · rfl
  have hstep : atPercent files now s (body ++ '%' :: after) = (.ok value.toList, after) := by
    simp only [atPercent, hnone, enclosed?_eq_some_iff.mpr ⟨rfl, hne, hbody⟩, hvalue]
  rw [expandAt_append files now s hbefore, expandAt_percent, hstep, expandAt_of_not_mem files now s hafter]
  rfl

end

/-- **The words of a line and the line itself.** The words of a line without quotes, carets and operators are
expanded one by one, and up to the white space at its end this is the expansion of the line if no percent sign takes
white space along. A reference with white space in it keeps its text, though the line as a whole would have the value
in its place. -/
theorem expansion_divided (files : FileTree) (now : Ambient) (s : State) (line : String)
    (hline : ∀ c ∈ line.toList, c ∉ lineSigns) :
    (∃ trailing, (∀ c ∈ trailing, isGap c = true) ∧
      (expandTokens files (fun _ => now) s (Token.scan line)).map (fun ts => (rawText ts).toList ++ trailing) =
        expandWords files now s line.toList) ∧
      (Unbroken files now s line.toList →
        expandWords files now s line.toList = (expandPercent files (fun _ => now) s line).map String.toList) ∧
      ∀ before body after value, line.toList = before ++ '%' :: (body ++ '%' :: after) →
        '%' ∉ before → '%' ∉ body → '%' ∉ after → (∃ c ∈ body, isGap c = true) →
        (s.inBatch = true → parameter? files s (body ++ '%' :: after) = none ∧ parameter? files s after = none) →
        expandReference? now s (String.ofList body) = .ok (some value) →
        expandWords files now s line.toList = .ok (before ++ (loneSign s ++ (body ++ (loneSign s ++ after)))) ∧
          (expandPercent files (fun _ => now) s line).map String.toList =
            .ok (before ++ (value.toList ++ after)) := by
  refine ⟨?_, ?_, ?_⟩
  · obtain ⟨new, trailing, hscan, htrailing, htext⟩ := scanFrom_expandTokens files now s line.toList hline 0 []
      [] (by simp)
    refine ⟨trailing, htrailing, ?_⟩
    rw [Token.scan, hscan]
    refine htext.trans ?_
    cases expandWords files now s line.toList <;> rfl
  · intro hunbroken
    rw [expandWords_eq hunbroken, toList_expandPercent]
  · intro before body after value heq hbefore hbody hafter hgap hparam hvalue
    rw [heq] at hline ⊢
    refine ⟨expandWords_broken hbefore hbody hafter hgap hparam, ?_⟩
    have hends : ∀ c ∈ body, endsReference c = false := by
      intro c hc
      have hsign := hline c (by simp [hc])
      simp only [lineSigns, List.mem_cons, not_or] at hsign
      have hpercent : c ≠ '%' := fun h => hbody (h ▸ hc)
      simp [endsReference, hpercent, hsign]
    have hne : body ≠ [] := by
      rintro rfl
      simp at hgap
    rw [toList_expandPercent, heq]
    exact expandAt_enclosed hbefore hends hne hafter (fun hbatch => (hparam hbatch).1) hvalue

/-- A state in which `X` has a text with a blank in it. -/
def blankInX : State := State.initial (Environment.empty.set "X" "xa by") "/"

theorem expansion_divided_twice : (∀ c ∈ "echo %X:a=c%  %X% ".toList, c ∉ lineSigns) ∧
    Unbroken .empty .epoch blankInX "echo %X:a=c%  %X% ".toList ∧
    ∃ trailing, (∀ c ∈ trailing, isGap c = true) ∧
      (expandTokens .empty (fun _ => .epoch) blankInX (Token.scan "echo %X:a=c%  %X% ")).map
          (fun ts => (rawText ts).toList ++ trailing) =
        (expandPercent .empty (fun _ => .epoch) blankInX "echo %X:a=c%  %X% ").map String.toList := by
  have hline : ∀ c ∈ "echo %X:a=c%  %X% ".toList, c ∉ lineSigns := by
    have hall : "echo %X:a=c%  %X% ".toList.all (fun c => !lineSigns.contains c) = true := by decide +kernel
    intro c hc
    simpa using List.all_eq_true.mp hall c hc
  have hunbroken : Unbroken .empty .epoch blankInX "echo %X:a=c%  %X% ".toList := by
    have hall : (taken .empty .epoch blankInX "echo %X:a=c%  %X% ".toList).all
        (fun text => text.all fun c => !isGap c) = true := by decide +kernel
    intro text htext c hc
    simpa using List.all_eq_true.mp (List.all_eq_true.mp hall text htext) c hc
  obtain ⟨⟨trailing, htrailing, htext⟩, hwhole, -⟩ := expansion_divided .empty .epoch blankInX _ hline
  exact ⟨hline, hunbroken, trailing, htrailing, htext.trans (hwhole hunbroken)⟩

/-- An edit with a blank in it stays as it is written, and the edited value is lost. -/
theorem replacement_with_blank :
    (expandTokens .empty (fun _ => .epoch) blankInX (Token.scan "echo %X:a b=c%")).map rawText =
        .ok "echo %X:a b=c%" ∧
      expandPercent .empty (fun _ => .epoch) blankInX "echo %X:a b=c%" = .ok "echo xcy" := by
  decide +kernel

end BatchShell.Expansion
