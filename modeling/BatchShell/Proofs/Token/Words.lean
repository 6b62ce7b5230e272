import BatchShell.Proofs.Token.RoundTrip
import BatchShell.Text.Blank

/-!
# Lines of words

A line has only words in it exactly if no sign of an operator or a redirection stands outside quotes and carets
(`Token.scan_words_iff`, with `bareSign` for the signs). White space stands between any two of these words
(`scanFrom_words`). If there are no carets either, the words and the white space before them are what the line is
made of, so that what follows the first word is free of signs like the line (`scanFrom_tail`).

All of this comes from what the scanner does where a word starts (`lexemeAt_of_bareSign`).
-/
namespace BatchShell

/-- Is there a sign that ends a word and is no white space, if the text is read in a mode? -/
def bareSign : WordMode → List Char → Bool
  | _, [] => false
  | mode, c :: cs =>
    match mode.next false c with
    | some mode' => bareSign mode' cs
    | none => !isGap c || bareSign .plain cs

/-- White space comes next, if anything does. -/
def StartsApart (cs : List Char) : Prop := ∀ c rest, cs = c :: rest → isGap c = true

section

variable {mode mode' : WordMode} {c : Char} {cs rest : List Char}

theorem bareSign_next (h : mode.next false c = some mode') (cs : List Char) :
    bareSign mode (c :: cs) = bareSign mode' cs := by
  rw [bareSign, h]

theorem bareSign_stop (h : mode.next false c = none) (cs : List Char) :
    bareSign mode (c :: cs) = (!isGap c || bareSign .plain cs) := by
  rw [bareSign, h]

/-- What ends a word in some mode ends it outside quotes. -/
theorem WordMode.next_plain_eq_none (h : mode.next false c = none) : WordMode.plain.next false c = none := by
  cases mode with
  | plain => exact h
  | quoted =>
    have hfeed : c = '\n' := by simpa [WordMode.next] using h
    rw [hfeed]
    rfl
  | escaped =>
    have hfeed : c = '\n' := by simpa [WordMode.next] using h
    rw [hfeed]
    rfl

/-- The beginning of a text without signs has none. -/
theorem bareSign_append_left {before after : List Char} (h : bareSign mode (before ++ after) = false) :
    bareSign mode before = false := by
  induction before generalizing mode with
  | nil => rfl
  | cons c before ih =>
    rw [List.cons_append] at h
    cases hnext : mode.next false c with
    | some mode' =>
      rw [bareSign_next hnext] at h ⊢
      exact ih h
    | none =>
      rw [bareSign_stop hnext, Bool.or_eq_false_iff] at h ⊢
      exact ⟨h.1, ih h.2⟩

theorem isGap_next (h : isGap c = true) : WordMode.plain.next false c = none := by
  simp only [isGap, Bool.or_eq_true, beq_iff_eq] at h
  rcases h with (rfl | rfl) | rfl <;> rfl

theorem bareSign_gap (h : isGap c = true) (cs : List Char) : bareSign .plain (c :: cs) = bareSign .plain cs := by
  rw [bareSign_stop (isGap_next h), h, Bool.not_true, Bool.false_or]

/-- Leaving out white space at the start of a text brings no sign out. Here white space is every blank character, of
which the scanner knows only some. -/
theorem bareSign_dropWhile_isBlank (h : bareSign .plain cs = false) :
    bareSign .plain (cs.dropWhile Text.isBlank) = false := by
  induction cs with
  | nil => rfl
  | cons c cs ih =>
    rw [List.dropWhile_cons]
    split
    · rename_i hblank
      apply ih
      cases hnext : WordMode.plain.next false c with
      | none =>
        rw [bareSign_stop hnext, Bool.or_eq_false_iff] at h
        exact h.2
      | some mode' =>
        have hplain : mode' = .plain := by
          have hquote : c ≠ '"' := by
            rintro rfl
            exact absurd hblank (by decide)
          have hcaret : c ≠ '^' := by
            rintro rfl
            exact absurd hblank (by decide)
          simp only [WordMode.next, beq_iff_eq, hquote, hcaret, if_false] at hnext
          split at hnext
          · cases hnext
          · split at hnext <;> cases hnext
            rfl
        rw [bareSign_next hnext, hplain] at h
        exact h
    · exact h

/-! ## One word -/

/-- A word ends where its text ends or at what ends words outside quotes, and keeps no sign to itself. -/
theorem scanWord_bareSign (mode : WordMode) (w : WordScan) (cs : List Char) :
    bareSign .plain (scanWord false mode w cs).2 = bareSign mode cs ∧
      (∀ c rest, (scanWord false mode w cs).2 = c :: rest → WordMode.plain.next false c = none) ∧
      (scanWord false mode w cs).2 <:+ cs := by
  induction cs generalizing mode w with
  | nil =>
    refine ⟨rfl, ?_, List.suffix_refl _⟩
    intro c rest h
    cases h
  | cons c cs ih =>
    cases hnext : mode.next false c with
    | none =>
      have hplain := WordMode.next_plain_eq_none hnext
      simp only [scanWord, hnext]
      refine ⟨?_, ?_, List.suffix_refl _⟩
      · rw [bareSign_stop hnext, bareSign_stop hplain]
      · intro d rest h
        cases h
        exact hplain
    | some mode' =>
      obtain ⟨hsign, hends, hsuffix⟩ := ih mode' (w.push mode c)
      simp only [scanWord, hnext]
      exact ⟨hsign.trans (bareSign_next hnext cs).symm, hends, hsuffix.trans (List.suffix_cons c cs)⟩

/-- Without carets a word is spelled by its text. -/
theorem scanWord_text (inBlock : Bool) (mode : WordMode) (hmode : mode ≠ .escaped) (w : WordScan)
    (hcaret : '^' ∉ cs) :
    (scanWord inBlock mode w cs).1.text.reverse ++ (scanWord inBlock mode w cs).2 = w.text.reverse ++ cs := by
  induction cs generalizing mode w with
  | nil => rfl
  | cons c cs ih =>
    have hc : c ≠ '^' := fun h => hcaret (h ▸ List.mem_cons_self)
    have hcs : '^' ∉ cs := fun h => hcaret (List.mem_cons_of_mem c h)
    cases hnext : mode.next inBlock c with
    | none => simp only [scanWord, hnext]
    | some mode' =>
      have hmode' : mode' ≠ .escaped := by
        rintro rfl
        cases mode with
        | escaped => exact hmode rfl
        | quoted =>
          simp only [WordMode.next] at hnext
          split at hnext
          · cases hnext
          · split at hnext <;> cases hnext
        | plain =>
          simp only [WordMode.next, beq_iff_eq, hc, if_false] at hnext
          split at hnext
          · cases hnext
          · split at hnext
            · cases hnext
            · split at hnext <;> cases hnext
      have hpush : (w.push mode c).text = c :: w.text := by
        simp [WordScan.push, hc]
      simp only [scanWord, hnext]
      rw [ih mode' hmode' _ hcs, hpush, List.reverse_cons, List.append_assoc]
      rfl

theorem redirectAt?_bareSign {found : RedirectSign × Nat × List Char} (h : redirectAt? c rest = some found) :
    bareSign .plain (c :: rest) = true := by
  have hsign (d : Char) (hd : d = '<' ∨ d = '>') (cs : List Char) : bareSign .plain (d :: cs) = true := by
    rcases hd with rfl | rfl <;> rfl
  unfold redirectAt? at h
  dsimp only at h
  split at h
  · rename_i hc
    exact hsign c (.inl (beq_iff_eq.mp hc)) rest
  · split at h
    · rename_i hc
      exact hsign c (.inr (beq_iff_eq.mp hc)) rest
    · split at h
      · rename_i d hdigit
        have hdigits : ∀ d : Fin 10, WordMode.plain.next false (Nat.digitChar d) = some .plain := by decide
        have hnext : WordMode.plain.next false c = some .plain := digit?_eq_some_iff.mp hdigit ▸ hdigits d
        rw [bareSign_next hnext]
        cases rest with
        | nil => simp at h
        | cons sign rest =>
          refine hsign sign ?_ rest
          simp only [List.head?_cons, beq_iff_eq, Option.some.injEq] at h
          split at h
          · exact .inl ‹_›
          · split at h
            · exact .inr ‹_›
            · cases h
      · cases h

/-- Where no sign is to come, a word comes next. It leaves no sign either, and white space after it. -/
theorem lexemeAt_of_bareSign (hgap : isGap c = false) (h : bareSign .plain (c :: rest) = false) :
    ∃ text quoted after, lexemeAt 0 c rest = (.word text quoted, after) ∧ bareSign .plain after = false ∧
      StartsApart after ∧ after <:+ rest ∧ ('^' ∉ c :: rest → c :: rest = text.toList ++ after) := by
  cases hnext : WordMode.plain.next false c with
  | none =>
    rw [bareSign_stop hnext, hgap] at h
    cases h
  | some mode =>
    have hredirect : redirectAt? c rest = none := by
      cases hfound : redirectAt? c rest with
      | none => rfl
      | some found =>
        rw [redirectAt?_bareSign hfound] at h
        cases h
    have hnext' : WordMode.plain.next (decide (0 < 0)) c = some mode := hnext
    obtain ⟨-, hat⟩ : _ ∧ lexemeAt 0 c rest = ((scanWord false .plain ⟨[], 0, 0, false⟩ (c :: rest)).1.lexeme,
      (scanWord false .plain ⟨[], 0, 0, false⟩ (c :: rest)).2) := lexemeAt_word hnext' hredirect
    obtain ⟨hsign, hends, -⟩ := scanWord_bareSign .plain ⟨[], 0, 0, false⟩ (c :: rest)
    obtain ⟨-, -, hsuffix⟩ := scanWord_bareSign mode (WordScan.push ⟨[], 0, 0, false⟩ .plain c) rest
    have hrest : (scanWord false .plain ⟨[], 0, 0, false⟩ (c :: rest)).2 =
        (scanWord false mode (WordScan.push ⟨[], 0, 0, false⟩ .plain c) rest).2 := by
      simp only [scanWord, hnext]
    refine ⟨_, _, _, hat, hsign.trans h, ?_, ?_, fun hcaret => ?_⟩
    · intro d rest' hd
      cases hd' : isGap d with
      | true => rfl
      | false =>
        have hstop := bareSign_stop (hends d rest' hd) rest'
        rw [← hd, hsign.trans h, hd'] at hstop
        cases hstop
    · exact hrest ▸ hsuffix
    · rw [String.toList_ofList]
      exact (scanWord_text false .plain (by decide) ⟨[], 0, 0, false⟩ hcaret).symm

/-- Outside quotes, what ends a word is white space, a redirection sign or where an operator starts. -/
theorem WordMode.next_plain_cases (h : WordMode.plain.next false c = none) :
    isGap c = true ∨ (c = '<' ∨ c = '>') ∨ c = '\n' ∨ c = '&' ∨ c = '|' ∨ c = '(' := by
  unfold WordMode.next at h
  split at h
  · rename_i hfeed
    exact .inr (.inr (.inl (beq_iff_eq.mp hfeed)))
  · dsimp only at h
    split at h
    · cases h
    · split at h
      · cases h
      · split at h
        · rename_i hends
          simp only [endsWord, isGap, Bool.and_false, Bool.or_false, Bool.or_eq_true, beq_iff_eq] at hends ⊢
          grind
        · cases h

/-- Where a word comes next at the outermost level, no sign stands there. -/
theorem bareSign_of_lexemeAt {text : String} {quoted : Bool} {after : List Char} (hgap : isGap c = false)
    (h : lexemeAt 0 c rest = (.word text quoted, after)) : bareSign .plain (c :: rest) = bareSign .plain after := by
  have hredirect : redirectAt? c rest = none := by
    cases hfound : redirectAt? c rest with
    | none => rfl
    | some found =>
      simp only [lexemeAt, hfound] at h
      repeat' split at h
      all_goals cases h
  cases hnext : WordMode.plain.next false c with
  | none =>
    rcases WordMode.next_plain_cases hnext with hc | hc | hc | hc | hc | hc
    · rw [hgap] at hc
      cases hc
    · rcases hc with rfl | rfl <;> cases hredirect
    · rw [hc] at h
      cases h
    · rw [hc] at h
      simp only [lexemeAt, Char.reduceBEq, Bool.false_eq_true, if_true, if_false] at h
      split at h <;> cases h
    · rw [hc] at h
      simp only [lexemeAt, Char.reduceBEq, Bool.false_eq_true, if_true, if_false] at h
      split at h <;> cases h
    · rw [hc] at h
      cases h
  | some mode =>
    have hnext' : WordMode.plain.next (decide (0 < 0)) c = some mode := hnext
    obtain ⟨-, hat⟩ : _ ∧ lexemeAt 0 c rest = ((scanWord false .plain ⟨[], 0, 0, false⟩ (c :: rest)).1.lexeme,
      (scanWord false .plain ⟨[], 0, 0, false⟩ (c :: rest)).2) := lexemeAt_word hnext' hredirect
    rw [← (scanWord_bareSign .plain ⟨[], 0, 0, false⟩ (c :: rest)).1, congrArg Prod.snd (hat.symm.trans h)]

end

/-! ## All words -/

/-- Tokens as they were written, each after the white space before it. -/
def rawText (ts : List Token) : String := String.join (ts.map fun t => t.leading ++ t.text)

@[simp] theorem toList_rawText_cons (t : Token) (ts : List Token) :
    (rawText (t :: ts)).toList = t.leading.toList ++ (t.text.toList ++ (rawText ts).toList) := by
  simp [rawText]

/-- Where no sign is to come the scanner makes words, parts them by white space and, without carets, loses nothing
but white space at the end. -/
theorem scanFrom_words {depth : Nat} (cs : List Char) (hdepth : depth = 0) (h : bareSign .plain cs = false)
    (pos : Nat) (leading : List Char) (done : List Token) :
    ∃ new, scanFrom depth pos leading done cs = done.reverse ++ new ∧ (∀ t ∈ new, t.isWord = true) ∧
      (leading ≠ [] ∨ StartsApart cs → ∀ t ∈ new, t.leading ≠ "") ∧
      ('^' ∉ cs → ∃ trailing, leading.reverse ++ cs = (rawText new).toList ++ trailing) := by
  fun_induction lexemes depth cs generalizing pos leading done with
  | case1 =>
    refine ⟨[], by simp [scanFrom], by simp, by simp, fun _ => ⟨leading.reverse, ?_⟩⟩
    simp [rawText]
  | case2 depth c rest hgap ih =>
    rw [bareSign_gap hgap] at h
    obtain ⟨new, hnew, hwords, hapart, hwritten⟩ := ih hdepth h (pos + 1) (c :: leading) done
    refine ⟨new, (scanFrom_gap hgap).trans hnew, hwords, fun _ => hapart (.inl (List.cons_ne_nil c leading)), ?_⟩
    intro hcaret
    obtain ⟨trailing, htrailing⟩ := hwritten fun hmem => hcaret (List.mem_cons_of_mem c hmem)
    refine ⟨trailing, ?_⟩
    rw [← htrailing, List.reverse_cons, List.append_assoc]
    rfl
  | case3 depth c rest hgap ih =>
    subst hdepth
    rw [Bool.not_eq_true] at hgap
    obtain ⟨text, quoted, after, hat, hafter, hstart, hsuffix, htext⟩ := lexemeAt_of_bareSign hgap h
    obtain ⟨size, hstep⟩ : ∃ size, scanFrom 0 pos leading done (c :: rest) = _ := scanFrom_cons hgap
    simp only [hat, Lexeme.depthAfter] at ih hstep
    obtain ⟨new, hnew, hwords, hapart, hwritten⟩ := ih trivial hafter (pos + size) []
      (⟨.word text quoted, pos, pos + size, String.ofList leading.reverse⟩ :: done)
    refine ⟨⟨.word text quoted, pos, pos + size, String.ofList leading.reverse⟩ :: new, ?_, ?_, ?_, ?_⟩
    · rw [hstep, hnew, List.reverse_cons, List.append_assoc]
      rfl
    · exact List.forall_mem_cons.mpr ⟨rfl, hwords⟩
    · rintro (hleading | hfirst)
      · refine List.forall_mem_cons.mpr ⟨?_, hapart (.inr hstart)⟩
        simpa [String.ext_iff] using hleading
      · rw [hfirst c rest rfl] at hgap
        cases hgap
    · intro hcaret
      have hcaret' : '^' ∉ after := fun hmem => hcaret (List.mem_cons_of_mem c (hsuffix.subset hmem))
      obtain ⟨trailing, htrailing⟩ := hwritten hcaret'
      refine ⟨trailing, ?_⟩
      rw [htext hcaret, toList_rawText_cons, List.append_assoc, List.append_assoc, ← htrailing]
      simp [Token.text, Lexeme.text]

/-- Only words on the line: no sign stands outside quotes and carets. -/
theorem bareSign_of_words {depth : Nat} (cs : List Char) (hdepth : depth = 0)
    (h : ∀ l ∈ lexemes depth cs, ∃ text quoted, l = .word text quoted) : bareSign .plain cs = false := by
  fun_induction lexemes depth cs with
  | case1 => rfl
  | case2 depth c rest hgap ih =>
    rw [bareSign_gap hgap]
    exact ih hdepth h
  | case3 depth c rest hgap ih =>
    subst hdepth
    rw [Bool.not_eq_true] at hgap
    obtain ⟨⟨text, quoted, hword⟩, hrest⟩ := List.forall_mem_cons.mp h
    rw [bareSign_of_lexemeAt hgap (Prod.ext hword rfl)]
    refine ih ?_ hrest
    rw [hword]
    rfl

theorem Token.exists_word {t : Token} (h : t.isWord = true) : ∃ text quoted, t.lexeme = .word text quoted := by
  unfold Token.isWord at h
  split at h
  · exact ⟨_, _, ‹_›⟩
  · cases h

/-- **A line has only words in it exactly if no sign stands outside quotes and carets.** -/
theorem Token.scan_words_iff (line : String) :
    (∀ t ∈ Token.scan line, t.isWord = true) ↔ bareSign .plain line.toList = false := by
  constructor
  · intro h
    refine bareSign_of_words line.toList rfl fun l hl => ?_
    rw [← map_lexeme_scan] at hl
    obtain ⟨t, ht, rfl⟩ := List.mem_map.mp hl
    exact Token.exists_word (h t ht)
  · intro h
    obtain ⟨new, hnew, hwords, -⟩ := scanFrom_words line.toList rfl h 0 [] []
    rw [Token.scan, hnew]
    exact hwords

/-- After the first word of a line of words there is white space before each, and what they say without carets is a
part of the line in which no sign stands. -/
theorem scanFrom_tail {depth : Nat} (cs : List Char) (hdepth : depth = 0) (h : bareSign .plain cs = false)
    (pos : Nat) (leading : List Char) {t : Token} {us : List Token}
    (hscan : scanFrom depth pos leading [] cs = t :: us) :
    (∀ u ∈ us, u.leading ≠ "") ∧
      ('^' ∉ cs → ∃ trailing, (rawText us).toList ++ trailing <:+ cs ∧
        bareSign .plain ((rawText us).toList ++ trailing) = false) := by
  fun_induction lexemes depth cs generalizing pos leading with
  | case1 => simp [scanFrom] at hscan
  | case2 depth c rest hgap ih =>
    rw [bareSign_gap hgap] at h
    rw [scanFrom_gap hgap] at hscan
    obtain ⟨hapart, htail⟩ := ih hdepth h (pos + 1) (c :: leading) hscan
    refine ⟨hapart, fun hcaret => ?_⟩
    obtain ⟨trailing, hsuffix, hsign⟩ := htail fun hmem => hcaret (List.mem_cons_of_mem c hmem)
    exact ⟨trailing, hsuffix.trans (List.suffix_cons c rest), hsign⟩
  | case3 depth c rest hgap ih =>
    subst hdepth
    rw [Bool.not_eq_true] at hgap
    obtain ⟨text, quoted, after, hat, hafter, hstart, hsuffix, -⟩ := lexemeAt_of_bareSign hgap h
    obtain ⟨size, hstep⟩ : ∃ size, scanFrom 0 pos leading [] (c :: rest) = _ := scanFrom_cons hgap
    simp only [hat, Lexeme.depthAfter] at hstep
    obtain ⟨new, hnew, -, hapart, hwritten⟩ := scanFrom_words after rfl hafter (pos + size) []
      [⟨.word text quoted, pos, pos + size, String.ofList leading.reverse⟩]
    obtain ⟨-, rfl⟩ := List.cons.inj (hscan.symm.trans (hstep.trans hnew))
    refine ⟨hapart (.inr hstart), fun hcaret => ?_⟩
    obtain ⟨trailing, htrailing⟩ := hwritten fun hmem => hcaret (List.mem_cons_of_mem c (hsuffix.subset hmem))
    refine ⟨trailing, ?_, ?_⟩
    · rw [← htrailing]
      exact hsuffix.trans (List.suffix_cons c rest)
    · rw [← htrailing]
      exact hafter

end BatchShell
