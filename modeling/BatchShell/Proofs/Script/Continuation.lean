import BatchShell.Proofs.Script.Lines
import BatchShell.Proofs.Token.RoundTrip

/-!
# Lines that end in a caret

The loader joins a line to the next one where it ends in a caret that escapes. It looks for that caret by itself
(`continues`), with a quote and a caret as all that it knows, and without words, operators, redirections and blocks.
The scanner meets the same caret at the end of a word.

Both read a line without line feeds in step. Inside a word, each character leads the scanner from one mode to the next
and the loader from the same mode to the same next one (`endsInCaret_next`). Between words the scanner passes over
characters that mean nothing to the loader (`lexemeAt_cases`).

* `lexemeAt_ends`: one lexeme.
* `scanFrom_ends`: a line, from any place on.
* `continues_iff_endsInEscape`: the two agree.
-/
namespace BatchShell

/-! ## The last caret of a line -/

/-- The mode in which a word goes on after the characters `cs`, none of which ends it. A word that was read holds no
character that ends it, so blocks do not matter. -/
def WordMode.after (mode : WordMode) (cs : List Char) : Option WordMode := cs.foldlM (WordMode.next false) mode

/-- The characters of a word end in a caret that escapes nothing: before it the word is outside quotes and no caret is
waiting for its character. The word keeps the text that it had before the caret. -/
def SpellsEscape (spelled : List Char) (l : Lexeme) : Prop :=
  ∃ before, spelled = before ++ ['^'] ∧ WordMode.plain.after before = some .plain ∧
    l = .word (String.ofList (scanWord false .plain ⟨[], 0, 0, false⟩ before).1.text.reverse) false

/-- The token reaches to the end of the line and ends there in a caret that escapes nothing. -/
def Token.EscapesEnd (line : List Char) (t : Token) : Prop :=
  t.stop = line.length ∧ SpellsEscape (line.extract t.start t.stop) t.lexeme

/-- The scanner takes the last character of a line for a caret with nothing left to escape. -/
def EndsInEscape (line : String) : Prop :=
  ∃ t, (Token.scan line).getLast? = some t ∧ t.EscapesEnd line.toList

/-! ## One word -/

/-- Does the text end right after a caret that escapes the character to come, if a word is read on in `mode`? -/
def endsInCaretFrom : WordMode → List Char → Bool
  | .plain => endsInCaret false false
  | .quoted => endsInCaret true false
  | .escaped => endsInCaret false true

theorem endsInCaretFrom_nil {mode : WordMode} : endsInCaretFrom mode [] = true ↔ mode = .escaped := by
  cases mode <;> simp [endsInCaretFrom, endsInCaret]

section

variable {inBlock : Bool} {mode mode' : WordMode} {w : WordScan} {c : Char} {cs rest : List Char}

/-- Blocks only add characters that end a word. -/
theorem WordMode.next_false (h : mode.next inBlock c = some mode') : mode.next false c = some mode' := by
  cases mode with
  | quoted => exact h
  | escaped => exact h
  | plain => grind [WordMode.next]

/-- The loader goes from mode to mode as the scanner does inside a word. -/
theorem endsInCaret_next (h : mode.next inBlock c = some mode') (cs : List Char) :
    endsInCaretFrom mode (c :: cs) = endsInCaretFrom mode' cs := by
  unfold WordMode.next at h
  split at h
  · cases h
  · cases mode with
    | escaped =>
      cases h
      rfl
    | quoted =>
      cases h
      by_cases hquote : c = '"' <;> simp [endsInCaretFrom, endsInCaret, hquote]
    | plain =>
      dsimp only at h
      split at h
      · rename_i hquote
        cases h
        simp [endsInCaretFrom, endsInCaret, beq_iff_eq.mp hquote]
      · rename_i hquote
        split at h
        · rename_i hcaret
          cases h
          simp [endsInCaretFrom, endsInCaret, beq_iff_eq.mp hcaret]
        · rename_i hcaret
          split at h
          · cases h
          · cases h
            simp [endsInCaretFrom, endsInCaret, hquote, hcaret]

/-- A word without line feeds that is ended by something is ended outside quotes, with no caret waiting. -/
theorem WordMode.eq_plain_of_next (hfeed : c ≠ '\n') (h : mode.next inBlock c = none) : mode = .plain := by
  cases mode with
  | plain => rfl
  | quoted => simp [WordMode.next, hfeed] at h
  | escaped => simp [WordMode.next, hfeed] at h

/-- At the end of a word the scanner and the loader are in the same mode. -/
theorem scanWord_ends (inBlock : Bool) (mode : WordMode) (w : WordScan) (cs : List Char) (hfeed : '\n' ∉ cs) :
    ∃ spelled last, cs = spelled ++ (scanWord inBlock mode w cs).2 ∧ mode.after spelled = some last ∧
      ((scanWord inBlock mode w cs).2 ≠ [] → last = .plain) ∧
      endsInCaretFrom mode cs = endsInCaretFrom last (scanWord inBlock mode w cs).2 := by
  induction cs generalizing mode w with
  | nil => exact ⟨[], mode, rfl, rfl, fun h => absurd rfl h, rfl⟩
  | cons c cs ih =>
    obtain ⟨hc, hcs⟩ := List.ne_and_not_mem_of_not_mem_cons hfeed
    cases hnext : mode.next inBlock c with
    | none =>
      simp only [scanWord, hnext]
      exact ⟨[], mode, rfl, rfl, fun _ => WordMode.eq_plain_of_next (Ne.symm hc) hnext, rfl⟩
    | some mode' =>
      obtain ⟨spelled, last, hspelled, hafter, hplain, hends⟩ := ih mode' (w.push mode c) hcs
      simp only [scanWord, hnext]
      refine ⟨c :: spelled, last, ?_, ?_, hplain, (endsInCaret_next hnext cs).trans hends⟩
      · rw [List.cons_append, ← hspelled]
      · rw [WordMode.after, List.foldlM_cons, WordMode.next_false hnext]
        exact hafter

/-- Only a caret outside quotes waits for a character. -/
theorem WordMode.next_eq_escaped (h : mode.next inBlock c = some .escaped) : mode = .plain ∧ c = '^' := by
  unfold WordMode.next at h
  split at h
  · cases h
  · cases mode with
    | quoted =>
      dsimp only at h
      split at h <;> cases h
    | escaped => cases h
    | plain =>
      dsimp only at h
      split at h
      · cases h
      · split at h
        · rename_i hcaret
          exact ⟨rfl, beq_iff_eq.mp hcaret⟩
        · split at h <;> cases h

/-- A word ends in a caret that waits only after one that it read outside quotes. -/
theorem WordMode.after_eq_escaped (h : mode.after cs = some .escaped) (hmode : mode ≠ .escaped) :
    ∃ before, cs = before ++ ['^'] ∧ mode.after before = some .plain := by
  obtain rfl | ⟨before, c, rfl⟩ := List.eq_nil_or_concat cs
  · exact absurd (Option.some.inj h) hmode
  · rw [WordMode.after, List.concat_eq_append, List.foldlM_append] at h
    obtain ⟨last, hlast, hc⟩ := Option.bind_eq_some_iff.mp h
    simp only [List.foldlM_cons, List.foldlM_nil] at hc
    obtain ⟨mode', hnext, hmode'⟩ := Option.bind_eq_some_iff.mp hc
    cases hmode'
    obtain ⟨rfl, rfl⟩ := WordMode.next_eq_escaped hnext
    exact ⟨before, List.concat_eq_append, hlast⟩

theorem WordMode.after_concat_caret (h : mode.after cs = some .plain) :
    mode.after (cs ++ ['^']) = some .escaped := by
  rw [WordMode.after, List.foldlM_append]
  exact Option.bind_eq_some_iff.mpr ⟨.plain, h, rfl⟩

/-- The caret at the end adds nothing to the text of a word. -/
theorem scanWord_concat_caret (h : mode.after cs = some .plain)
    (hall : (scanWord inBlock mode w (cs ++ ['^'])).2 = []) :
    (scanWord inBlock mode w (cs ++ ['^'])).1 = (scanWord false mode w cs).1.push .plain '^' := by
  induction cs generalizing mode w with
  | nil =>
    cases h
    rfl
  | cons c cs ih =>
    rw [WordMode.after, List.foldlM_cons] at h
    obtain ⟨mode', hnext, hrest⟩ := Option.bind_eq_some_iff.mp h
    cases hin : mode.next inBlock c with
    | none =>
      simp only [List.cons_append, scanWord, hin] at hall
      cases hall
    | some mode'' =>
      cases (WordMode.next_false hin).symm.trans hnext
      simp only [List.cons_append, scanWord, hin, hnext] at hall ⊢
      exact ih hrest hall

theorem WordScan.lexeme_push_caret (w : WordScan) :
    (w.push .plain '^').lexeme = .word (String.ofList w.text.reverse) false := by
  simp [WordScan.lexeme, WordScan.push]

/-! ## One lexeme -/

/-- Characters that are neither quotes nor carets mean nothing to the loader. -/
theorem endsInCaret_append {sign : List Char} (h : ∀ c ∈ sign, c ≠ '"' ∧ c ≠ '^') (cs : List Char) :
    endsInCaretFrom .plain (sign ++ cs) = endsInCaretFrom .plain cs := by
  induction sign with
  | nil => rfl
  | cons c sign ih =>
    obtain ⟨⟨hquote, hcaret⟩, hsign⟩ := List.forall_mem_cons.mp h
    rw [← ih hsign]
    simp [endsInCaretFrom, endsInCaret, hquote, hcaret]

/-- The lexeme is no word, and what spells it has neither quotes nor carets. -/
def Skips (cs : List Char) (found : Lexeme × List Char) : Prop :=
  ∃ sign, cs = sign ++ found.2 ∧ (∀ d ∈ sign, d ≠ '"' ∧ d ≠ '^') ∧ ∀ text quoted, found.1 ≠ .word text quoted

theorem skips_operator (sign : List Char) (hsign : ∀ d ∈ sign, d ≠ '"' ∧ d ≠ '^') (op : Operator) (rest : List Char) :
    Skips (sign ++ rest) (.operator op, rest) :=
  ⟨sign, rfl, hsign, by simp⟩

/-- An operator that may be doubled. -/
theorem skips_doubled (hplain : c ≠ '"' ∧ c ≠ '^') (two one : Operator) (rest : List Char) :
    Skips (c :: rest)
      (if rest.head? == some c then (.operator two, rest.drop 1) else (.operator one, rest)) := by
  split
  · rename_i hdouble
    obtain ⟨more, rfl⟩ := List.head?_eq_some_iff.mp (beq_iff_eq.mp hdouble)
    exact skips_operator [c, c] (by simpa using hplain) two more
  · exact skips_operator [c] (by simpa using hplain) one rest

/-- What stands at the start of a text is passed over, or it is the word that starts there. -/
theorem lexemeAt_cases (depth : Nat) (hgap : isGap c = false) (rest : List Char) :
    Skips (c :: rest) (lexemeAt depth c rest) ∨
      lexemeAt depth c rest = ((scanWord (0 < depth) .plain ⟨[], 0, 0, false⟩ (c :: rest)).1.lexeme,
        (scanWord (0 < depth) .plain ⟨[], 0, 0, false⟩ (c :: rest)).2) := by
  cases hredirect : redirectAt? c rest with
  | some found =>
    obtain ⟨sign, size, after⟩ := found
    obtain ⟨hcoherent, htext⟩ := redirectAt?_text hredirect
    rw [(lexemeAt_redirect hredirect depth).2]
    exact .inl ⟨sign.text.toList, htext, hcoherent.plain_text, by simp⟩
  | none =>
    cases hnext : WordMode.plain.next (0 < depth) c with
    | some mode => exact .inr (lexemeAt_word hnext hredirect).2
    | none =>
      have hsign : c ≠ '<' ∧ c ≠ '>' := by constructor <;> rintro rfl <;> cases hredirect
      have hc : c = '\n' ∨ c = '&' ∨ c = '|' ∨ c = '(' ∨ c = ')' ∧ 0 < depth := by
        grind [WordMode.next, endsWord, isGap]
      left
      obtain rfl | rfl | rfl | rfl | ⟨rfl, hdepth⟩ := hc
      · exact skips_operator ['\n'] (by simp) .lineBreak rest
      · exact skips_doubled (by decide) .andThen .both rest
      · exact skips_doubled (by decide) .orElse .pipe rest
      · exact skips_operator ['('] (by simp) .openParen rest
      · have hat : lexemeAt depth ')' rest = (.operator .closeParen, rest) := by simp [lexemeAt, hdepth]
        rw [hat]
        exact skips_operator [')'] (by simp) .closeParen rest

/-- One lexeme: the loader reads on after it as the scanner does, and if the text ends with it, the loader sees a
caret with nothing to escape exactly if the scanner does. -/
theorem lexemeAt_ends (depth : Nat) (hgap : isGap c = false) (hfeed : '\n' ∉ c :: rest) {spelled : List Char}
    (hrest : rest = spelled ++ (lexemeAt depth c rest).2) :
    ((lexemeAt depth c rest).2 ≠ [] →
      endsInCaretFrom .plain (c :: rest) = endsInCaretFrom .plain (lexemeAt depth c rest).2) ∧
    ((lexemeAt depth c rest).2 = [] →
      (endsInCaretFrom .plain (c :: rest) = true ↔ SpellsEscape (c :: spelled) (lexemeAt depth c rest).1)) := by
  obtain ⟨sign, hsign, hplain, hno⟩ | hword := lexemeAt_cases depth hgap rest
  · have hsame : endsInCaretFrom .plain (c :: rest) = endsInCaretFrom .plain (lexemeAt depth c rest).2 := by
      rw [hsign]
      exact endsInCaret_append hplain _
    refine ⟨fun _ => hsame, fun hnil => ?_⟩
    rw [hsame, hnil, endsInCaretFrom_nil]
    refine ⟨nofun, ?_⟩
    rintro ⟨before, -, -, htext⟩
    exact absurd htext (hno _ _)
  · obtain ⟨characters, last, hsplit, hafter, hplain, hends⟩ :=
      scanWord_ends (0 < depth) .plain ⟨[], 0, 0, false⟩ (c :: rest) hfeed
    have hsecond : (scanWord (0 < depth) .plain ⟨[], 0, 0, false⟩ (c :: rest)).2 = (lexemeAt depth c rest).2 :=
      (congrArg Prod.snd hword).symm
    rw [hsecond] at hsplit hplain hends
    refine ⟨fun hne => hplain hne ▸ hends, fun hnil => ?_⟩
    rw [hnil, List.append_nil] at hrest hsplit
    subst hrest
    rw [hends, hnil, endsInCaretFrom_nil]
    constructor
    · rintro rfl
      obtain ⟨before, hbefore, hmode⟩ := WordMode.after_eq_escaped (hsplit ▸ hafter) (by decide)
      refine ⟨before, hbefore, hmode, ?_⟩
      rw [congrArg Prod.fst hword, hbefore, scanWord_concat_caret hmode, WordScan.lexeme_push_caret]
      rw [← hbefore, hsecond, hnil]
    · rintro ⟨before, hbefore, hmode, -⟩
      have hescaped := WordMode.after_concat_caret hmode
      rw [← hbefore, hsplit, hafter] at hescaped
      exact Option.some.inj hescaped

end

/-! ## The line -/

/-- A token that was read from `spelled` ends the line if nothing follows. -/
theorem Token.escapesEnd_iff (front spelled after : List Char) (l : Lexeme) (leading : String) :
    Token.EscapesEnd (front ++ spelled ++ after) ⟨l, front.length, front.length + spelled.length, leading⟩ ↔
      after = [] ∧ SpellsEscape spelled l := by
  have hspan : (front ++ spelled ++ after).extract front.length (front.length + spelled.length) = spelled := by
    rw [List.append_assoc, List.extract_eq_take_drop, List.drop_left, Nat.add_sub_cancel_left, List.take_left]
  have hstop : front.length + spelled.length = (front ++ spelled ++ after).length ↔ after = [] := by
    simp only [List.length_append, Nat.left_eq_add, List.length_eq_zero_iff]
  rw [Token.EscapesEnd, hspan, hstop]

/-- From any place on, the loader sees a caret with nothing to escape at the end of the line exactly if the last of
the scanner's new tokens ends the line in one. -/
theorem scanFrom_ends (depth : Nat) (leading : List Char) (done : List Token) (cs front : List Char)
    (hfeed : '\n' ∉ cs) :
    ∃ new, scanFrom depth front.length leading done cs = done.reverse ++ new ∧
      (endsInCaretFrom .plain cs = true ↔ ∃ t, new.getLast? = some t ∧ t.EscapesEnd (front ++ cs)) := by
  fun_induction lexemes depth cs generalizing leading done front with
  | case1 => exact ⟨[], by simp [scanFrom], by simp [endsInCaretFrom_nil]⟩
  | case2 depth c rest hgap ih =>
    obtain ⟨new, hscan, hends⟩ := ih (c :: leading) done (front ++ [c]) (List.not_mem_of_not_mem_cons hfeed)
    rw [List.length_append] at hscan
    have hplain : ∀ d ∈ [c], d ≠ '"' ∧ d ≠ '^' := by
      rw [List.forall_mem_singleton]
      constructor <;> rintro rfl <;> cases hgap
    refine ⟨new, (scanFrom_gap hgap).trans hscan, ?_⟩
    rw [List.append_assoc] at hends
    exact (Bool.eq_iff_iff.mp (endsInCaret_append hplain rest)).trans hends
  | case3 depth c rest hgap ih =>
    rw [Bool.not_eq_true] at hgap
    obtain ⟨spelled, hspelled, hstep⟩ : ∃ spelled, rest = _ ∧
      scanFrom depth front.length leading done (c :: rest) = _ := scanFrom_spelled hgap
    obtain ⟨hmore, hlast⟩ := lexemeAt_ends depth hgap hfeed hspelled
    let t : Token := ⟨(lexemeAt depth c rest).1, front.length, front.length + (spelled.length + 1),
      String.ofList leading.reverse⟩
    have hline : front ++ c :: rest = front ++ c :: spelled ++ (lexemeAt depth c rest).2 := by
      rw [List.append_assoc, List.cons_append, ← hspelled]
    have hfeed' : '\n' ∉ (lexemeAt depth c rest).2 := by
      intro hmem
      rw [hspelled] at hfeed
      simp [hmem] at hfeed
    obtain ⟨new, hscan, hends⟩ := ih [] (t :: done) (front ++ c :: spelled) hfeed'
    have ht : t.EscapesEnd (front ++ c :: rest) ↔
        (lexemeAt depth c rest).2 = [] ∧ SpellsEscape (c :: spelled) (lexemeAt depth c rest).1 := by
      rw [hline]
      exact Token.escapesEnd_iff front (c :: spelled) _ _ _
    rw [← hline] at hends
    refine ⟨t :: new, ?_, ?_⟩
    · rw [hstep]
      simpa using hscan
    · by_cases hnil : (lexemeAt depth c rest).2 = []
      · obtain rfl : new = [] := by
          rw [hnil] at hscan
          simpa [scanFrom] using hscan
        rw [hlast hnil]
        simp [ht, hnil]
      · have hinside : ¬ t.EscapesEnd (front ++ c :: rest) := fun hescape => hnil (ht.mp hescape).1
        rw [hmore hnil, hends]
        cases new with
        | nil => simp [hinside]
        | cons u us => rw [List.getLast?_cons_cons]

/-- **The loader finds the carets that join lines where the scanner finds them.** A line without line feeds goes on in
the next one exactly if it ends in a caret that the scanner reads as an escape with nothing left to escape: neither
inside quotes nor escaped itself. -/
theorem continues_iff_endsInEscape (text : String) (h : '\n' ∉ text.toList) :
    continues text = true ↔ text.toList.getLast? = some '^' ∧ EndsInEscape text := by
  obtain ⟨new, hscan, hends⟩ := scanFrom_ends 0 [] [] text.toList [] h
  have hscan' : Token.scan text = new := hscan
  rw [EndsInEscape, hscan']
  constructor
  · intro hcontinues
    obtain ⟨start, rfl⟩ := exists_of_continues hcontinues
    exact ⟨by simp, hends.mp hcontinues⟩
  · rintro ⟨-, hescape⟩
    exact hends.mpr hescape

/-- A quoted caret, an escaped one in a block, and behind a redirection a word with both and one that is left over. -/
theorem continues_iff_endsInEscape_word :
    let text := "ECHO \"^\" & (b^^)2>f c\"^\"^^^"
    '\n' ∉ text.toList ∧ continues text = true ∧ text.toList.getLast? = some '^' ∧ EndsInEscape text := by
  intro text
  have hfeed : '\n' ∉ text.toList := by decide
  have hcontinues : continues text = true := by decide
  exact ⟨hfeed, hcontinues, (continues_iff_endsInEscape text hfeed).mp hcontinues⟩

/-- A quote ends at a line feed for the scanner, but not for the loader. -/
example : continues "\"\n^" = false ∧ (Token.scan "\"\n^").getLast? = some ⟨.word "" false, 2, 3, ""⟩ := by
  decide +kernel

end BatchShell
