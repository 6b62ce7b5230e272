import BatchShell.Proofs.Token.Lexemes

/-!
# Writing tokens and reading them again

A token list is written with carets where a word holds special characters, and with one blank between two
tokens. Reading that line gives the same lexemes, unless the first line had something in it that cannot be
written: a caret before a quote, a carriage return, a line feed or nothing, or a quote that is still open at a
line feed (`Requotable`).

Both directions go through the text of a word alone. `wordShape` reads off it how many quoted regions it has,
whether something stands outside of them and whether one is left open.

* `lexemes_writable`: what is read from a line is `Writable`. A word knows its own shape, and one with an
  open quote is the last on the line.
* `lexemes_written`: what is writable is read again.
-/
namespace BatchShell

/-! ## The shape of a word -/

/-- What the text of a word tells: whether a quoted region is open at its end, how many there are, whether
there is something outside of them, and whether the text can be written. A line feed cannot, and a carriage
return can only inside quotes. -/
structure WordShape where
  isOpen : Bool
  regions : Nat
  bare : Bool
  clean : Bool
  deriving DecidableEq

namespace WordShape

/-- The shape of no text. -/
def empty : WordShape := ⟨false, 0, false, true⟩

def step (s : WordShape) (c : Char) : WordShape :=
  if c == '"' then
    { s with isOpen := !s.isOpen, regions := if s.isOpen then s.regions else s.regions + 1 }
  else
    { s with bare := s.bare || !s.isOpen, clean := s.clean && c != '\n' && (s.isOpen || c != '\r') }

theorem step_quote (s : WordShape) : s.step '"' =
    { s with isOpen := !s.isOpen, regions := if s.isOpen then s.regions else s.regions + 1 } := rfl

theorem step_of_ne {c : Char} (h : c ≠ '"') (s : WordShape) : s.step c =
    { s with bare := s.bare || !s.isOpen, clean := s.clean && c != '\n' && (s.isOpen || c != '\r') } := by
  simp [step, h]

theorem clean_of_step {s : WordShape} {c : Char} (h : (s.step c).clean = true) : s.clean = true := by
  by_cases hc : c = '"'
  · subst hc
    exact h
  · rw [step_of_ne hc] at h
    simp only [Bool.and_eq_true] at h
    exact h.1.1

theorem clean_of_foldl {s : WordShape} {text : List Char} (h : (text.foldl step s).clean = true) :
    s.clean = true := by
  induction text generalizing s with
  | nil => exact h
  | cons c text ih => exact clean_of_step (ih h)

end WordShape

/-- The shape of a text. -/
def wordShape (text : List Char) : WordShape := text.foldl .step .empty

@[simp] theorem wordShape_concat (text : List Char) (c : Char) :
    wordShape (text ++ [c]) = (wordShape text).step c := by
  simp [wordShape, List.foldl_append]

/-! ## Lines that can be written back -/

/-- Every escaping caret is followed by a character other than a quote, a carriage return and a line feed,
and no quote is open at a line feed. The mode is the one in which the text is entered. -/
def Requotable : WordMode → List Char → Bool
  | .plain, [] => true
  | .quoted, [] => true
  | .escaped, [] => false
  | .plain, c :: cs => Requotable (.first c) cs
  | .quoted, c :: cs => c != '\n' && Requotable (if c == '"' then .plain else .quoted) cs
  | .escaped, c :: cs => c != '"' && c != '\r' && c != '\n' && Requotable .plain cs

theorem requotable_plain {c : Char} (hquote : c ≠ '"') (hcaret : c ≠ '^') (cs : List Char) :
    Requotable .plain (c :: cs) = Requotable .plain cs := by
  simp [Requotable, WordMode.first, hquote, hcaret]

/-- Characters that are neither quotes nor carets can be skipped. -/
theorem requotable_append {skipped : List Char} (h : ∀ c ∈ skipped, c ≠ '"' ∧ c ≠ '^') (cs : List Char) :
    Requotable .plain (skipped ++ cs) = Requotable .plain cs := by
  induction skipped with
  | nil => rfl
  | cons c skipped ih =>
    obtain ⟨hquote, hcaret⟩ := h c List.mem_cons_self
    rw [List.cons_append, requotable_plain hquote hcaret, ih fun d hd => h d (List.mem_cons_of_mem _ hd)]

/-! ## Reading a word -/

/-- A word goes on as it starts. -/
theorem WordMode.eq_first_of_next {inBlock : Bool} {c : Char} {mode : WordMode}
    (h : WordMode.plain.next inBlock c = some mode) : mode = .first c := by
  have hfeed : c ≠ '\n' := by
    rintro rfl
    cases h
  simp only [WordMode.next, beq_eq_false_iff_ne.mpr hfeed, Bool.false_eq_true, if_false] at h
  unfold WordMode.first
  split at h
  · cases h
    rename_i hquote
    rw [if_pos hquote]
  · rename_i hquote
    rw [if_neg hquote]
    split at h
    · cases h
      rename_i hcaret
      rw [if_pos hcaret]
    · rename_i hcaret
      rw [if_neg hcaret]
      split at h
      · cases h
      · cases h
        rfl

/-- A character that needs no caret goes on a word. -/
theorem WordMode.next_of_not_needsCaret (inBlock : Bool) {c : Char} (hcaret : needsCaret c = false)
    (hquote : c ≠ '"') (hreturn : c ≠ '\r') (hfeed : c ≠ '\n') :
    WordMode.plain.next inBlock c = some .plain := by
  simp only [needsCaret, Bool.or_eq_false_iff, beq_eq_false_iff_ne] at hcaret
  simp [WordMode.next, endsWord, hcaret, hquote, hfeed, hreturn]

/-- What a word being read knows of itself is what its text tells. Right after a caret the word knows already
that there is something outside quotes. -/
structure WordScan.Tracks (mode : WordMode) (w : WordScan) : Prop where
  isOpen : (wordShape w.text.reverse).isOpen = decide (mode = .quoted)
  regions : (wordShape w.text.reverse).regions = w.regions
  clean : (wordShape w.text.reverse).clean = true
  bare : if mode = .escaped then w.bare = true else (wordShape w.text.reverse).bare = w.bare
  nonempty : w.text ≠ [] ∨ mode = .escaped

namespace WordScan

variable {w : WordScan} {mode mode' : WordMode} {inBlock : Bool} {c : Char} {cs : List Char}

/-- An escaped character. -/
theorem Tracks.push_escaped (h : w.Tracks .escaped) (hquote : c ≠ '"') (hreturn : c ≠ '\r')
    (hfeed : c ≠ '\n') : (w.push .escaped c).Tracks .plain := by
  have hpush : w.push .escaped c = ⟨c :: w.text, w.size + 1, w.regions, w.bare⟩ := by simp [push]
  have hbare : w.bare = true := by simpa using h.bare
  rw [hpush]
  refine ⟨?_, ?_, ?_, ?_, .inl (List.cons_ne_nil _ _)⟩
  · simp [WordShape.step_of_ne hquote, h.isOpen]
  · simp [WordShape.step_of_ne hquote, h.regions]
  · simp [WordShape.step_of_ne hquote, h.clean, h.isOpen, hfeed, hreturn]
  · simp [WordShape.step_of_ne hquote, h.isOpen, hbare]

/-- A character inside quotes, the closing quote among them. -/
theorem Tracks.push_quoted (h : w.Tracks .quoted) (hfeed : c ≠ '\n') :
    (w.push .quoted c).Tracks (if c == '"' then .plain else .quoted) := by
  have hpush : w.push .quoted c = ⟨c :: w.text, w.size + 1, w.regions, w.bare⟩ := by simp [push]
  have hopen : (wordShape w.text.reverse).isOpen = true := h.isOpen
  have hbare : (wordShape w.text.reverse).bare = w.bare := by simpa using h.bare
  rw [hpush]
  by_cases hc : c = '"'
  · subst hc
    refine ⟨?_, ?_, ?_, ?_, .inl (List.cons_ne_nil _ _)⟩
    · simp [WordShape.step_quote, hopen]
    · simp [WordShape.step_quote, hopen, h.regions]
    · simp [WordShape.step_quote, h.clean]
    · simp [WordShape.step_quote, hbare]
  · have hmode : (if c == '"' then WordMode.plain else .quoted) = .quoted := by simp [hc]
    rw [hmode]
    refine ⟨?_, ?_, ?_, ?_, .inl (List.cons_ne_nil _ _)⟩
    · simp [WordShape.step_of_ne hc, hopen]
    · simp [WordShape.step_of_ne hc, h.regions]
    · simp [WordShape.step_of_ne hc, h.clean, hopen, hfeed]
    · simp [WordShape.step_of_ne hc, hopen, hbare]

/-- A character outside quotes: an opening quote, a caret or a character of the word. The empty word has no
character yet, and tracks its text otherwise. -/
theorem Tracks.push_plain (hopen : (wordShape w.text.reverse).isOpen = false)
    (hregions : (wordShape w.text.reverse).regions = w.regions)
    (hclean : (wordShape w.text.reverse).clean = true) (hbare : (wordShape w.text.reverse).bare = w.bare)
    (hreturn : c ≠ '\r') (hfeed : c ≠ '\n') : (w.push .plain c).Tracks (.first c) := by
  by_cases hquote : c = '"'
  · subst hquote
    have hpush : w.push .plain '"' = ⟨'"' :: w.text, w.size + 1, w.regions + 1, w.bare⟩ := by simp [push]
    rw [hpush]
    refine ⟨?_, ?_, ?_, ?_, .inl (List.cons_ne_nil _ _)⟩
    · simp [WordShape.step_quote, hopen, WordMode.first]
    · simp [WordShape.step_quote, hopen, hregions]
    · simp [WordShape.step_quote, hclean]
    · simp [WordShape.step_quote, hbare, WordMode.first]
  · by_cases hcaret : c = '^'
    · subst hcaret
      have hpush : w.push .plain '^' = ⟨w.text, w.size + 1, w.regions, true⟩ := by simp [push]
      rw [hpush]
      refine ⟨?_, hregions, hclean, ?_, .inr rfl⟩
      · simp [hopen, WordMode.first]
      · simp [WordMode.first]
    · have hpush : w.push .plain c = ⟨c :: w.text, w.size + 1, w.regions, true⟩ := by
        simp [push, hcaret, hquote]
      have hmode : WordMode.first c = .plain := by simp [WordMode.first, hquote, hcaret]
      rw [hpush, hmode]
      refine ⟨?_, ?_, ?_, ?_, .inl (List.cons_ne_nil _ _)⟩
      · simp [WordShape.step_of_ne hquote, hopen]
      · simp [WordShape.step_of_ne hquote, hregions]
      · simp [WordShape.step_of_ne hquote, hclean, hfeed, hreturn]
      · simp [WordShape.step_of_ne hquote, hopen]

/-- One more character. -/
theorem Tracks.push (h : w.Tracks mode) (hreq : Requotable mode (c :: cs) = true)
    (hnext : mode.next inBlock c = some mode') :
    (w.push mode c).Tracks mode' ∧ Requotable mode' cs = true := by
  have hfeed : c ≠ '\n' := by
    rintro rfl
    cases hnext
  have hne : (c == '\n') = false := beq_eq_false_iff_ne.mpr hfeed
  cases mode with
  | escaped =>
    simp only [WordMode.next, hne, Bool.false_eq_true, if_false, Option.some.injEq] at hnext
    simp only [Requotable, Bool.and_eq_true, bne_iff_ne] at hreq
    subst hnext
    exact ⟨h.push_escaped hreq.1.1.1 hreq.1.1.2 hfeed, hreq.2⟩
  | quoted =>
    simp only [WordMode.next, hne, Bool.false_eq_true, if_false, Option.some.injEq] at hnext
    simp only [Requotable, Bool.and_eq_true] at hreq
    subst hnext
    exact ⟨h.push_quoted hfeed, hreq.2⟩
  | plain =>
    have hreturn : c ≠ '\r' := by
      rintro rfl
      cases hnext
    cases WordMode.eq_first_of_next hnext
    have hbare : (wordShape w.text.reverse).bare = w.bare := by simpa using h.bare
    exact ⟨.push_plain h.isOpen h.regions h.clean hbare hreturn hfeed, hreq⟩

/-- A word that is read to its end knows its shape, and if a quote is open there, nothing follows. -/
theorem Tracks.scanWord (inBlock : Bool) (h : w.Tracks mode) (hreq : Requotable mode cs = true) :
    ∃ last, (scanWord inBlock mode w cs).1.Tracks last ∧ last ≠ .escaped ∧
      (last = .quoted → (scanWord inBlock mode w cs).2 = []) ∧
      Requotable .plain (scanWord inBlock mode w cs).2 = true := by
  induction cs generalizing mode w with
  | nil =>
    refine ⟨mode, h, ?_, fun _ => rfl, rfl⟩
    rintro rfl
    cases hreq
  | cons c cs ih =>
    rw [BatchShell.scanWord]
    cases hnext : mode.next inBlock c with
    | some mode' =>
      obtain ⟨hpush, hrest⟩ := h.push hreq hnext
      exact ih hpush hrest
    | none =>
      -- outside quotes only: a line feed inside quotes or after a caret is excluded
      cases mode with
      | plain => exact ⟨.plain, h, by simp, by simp, hreq⟩
      | quoted =>
        simp only [Requotable, Bool.and_eq_true, bne_iff_ne] at hreq
        simp [WordMode.next, hreq.1] at hnext
      | escaped =>
        simp only [Requotable, Bool.and_eq_true, bne_iff_ne] at hreq
        simp [WordMode.next, hreq.1.2] at hnext

end WordScan

/-! ## What is read can be written -/

/-- A lexeme that its written form spells. A word is marked as quoted exactly if its text is one quoted
region. -/
def Lexeme.Writable (depth : Nat) : Lexeme → Prop
  | .word text quoted =>
    text.toList ≠ [] ∧ (wordShape text.toList).clean = true ∧
      quoted = ((wordShape text.toList).regions == 1 && !(wordShape text.toList).bare)
  | .operator op => op = .closeParen → 0 < depth
  | .redirect sign => sign.Coherent

/-- Is the lexeme a word with an open quote? -/
def Lexeme.isOpen : Lexeme → Bool
  | .word text _ => (wordShape text.toList).isOpen
  | _ => false

/-- Lexemes that can be written on a line, inside `depth` parentheses. -/
def Writable (depth : Nat) : List Lexeme → Prop
  | [] => True
  | l :: ls => l.Writable depth ∧ (l.isOpen = true → ls = []) ∧ Writable (l.depthAfter depth) ls

theorem WordScan.Tracks.writable {w : WordScan} {mode : WordMode} (h : w.Tracks mode) (hmode : mode ≠ .escaped)
    (depth : Nat) : w.lexeme.Writable depth := by
  have hbare := h.bare
  rw [if_neg hmode] at hbare
  refine ⟨?_, ?_, ?_⟩
  · simpa using h.nonempty.resolve_right hmode
  · simpa using h.clean
  · simp [h.regions, hbare]

theorem RedirectSign.Coherent.plain_text {sign : RedirectSign} (h : sign.Coherent) :
    ∀ c ∈ sign.text.toList, c ≠ '"' ∧ c ≠ '^' := by
  obtain ⟨handle, op, copyOf⟩ := sign
  have hdigit : ∀ d : Fin 10, Nat.digitChar d ≠ '"' ∧ Nat.digitChar d ≠ '^' := by decide
  rw [RedirectSign.toList_text h]
  cases handle <;> cases op <;> cases copyOf <;>
    simp [digitBefore, RedirectOp.signHead, RedirectOp.signTail, hdigit]

/-- A lexeme that is read can be written, and the line goes on in order after it. -/
theorem lexemeAt_writable (depth : Nat) {c : Char} {rest : List Char} (hgap : isGap c = false)
    (h : Requotable .plain (c :: rest) = true) :
    (lexemeAt depth c rest).1.Writable depth ∧
      ((lexemeAt depth c rest).1.isOpen = true → (lexemeAt depth c rest).2 = []) ∧
      Requotable .plain (lexemeAt depth c rest).2 = true := by
  have skip : ∀ (sign more : List Char), c :: rest = sign ++ more → (∀ d ∈ sign, d ≠ '"' ∧ d ≠ '^') →
      Requotable .plain more = true := by
    intro sign more hcs hsign
    rwa [hcs, requotable_append hsign] at h
  unfold lexemeAt
  split
  · rename_i hc
    exact ⟨nofun, nofun, skip ['\n'] rest (by simp [beq_iff_eq.mp hc]) (by simp)⟩
  · rename_i hfeed
    split
    · rename_i hc
      split
      · rename_i hnext
        obtain ⟨more, rfl⟩ := List.head?_eq_some_iff.mp (beq_iff_eq.mp hnext)
        exact ⟨nofun, nofun, skip ['&', '&'] more (by simp [beq_iff_eq.mp hc]) (by simp)⟩
      · exact ⟨nofun, nofun, skip ['&'] rest (by simp [beq_iff_eq.mp hc]) (by simp)⟩
    · split
      · rename_i hc
        split
        · rename_i hnext
          obtain ⟨more, rfl⟩ := List.head?_eq_some_iff.mp (beq_iff_eq.mp hnext)
          exact ⟨nofun, nofun, skip ['|', '|'] more (by simp [beq_iff_eq.mp hc]) (by simp)⟩
        · exact ⟨nofun, nofun, skip ['|'] rest (by simp [beq_iff_eq.mp hc]) (by simp)⟩
      · split
        · rename_i hc
          exact ⟨nofun, nofun, skip ['('] rest (by simp [beq_iff_eq.mp hc]) (by simp)⟩
        · split
          · rename_i hc
            simp only [Bool.and_eq_true, beq_iff_eq, decide_eq_true_eq] at hc
            exact ⟨fun _ => hc.2, nofun, skip [')'] rest (by simp [hc.1]) (by simp)⟩
          · split
            · rename_i sign size after hsign
              obtain ⟨hcoherent, htext⟩ := redirectAt?_text hsign
              exact ⟨hcoherent, nofun, skip _ _ htext hcoherent.plain_text⟩
            · have hreturn : c ≠ '\r' := by
                rintro rfl
                cases hgap
              have hstart : (WordScan.push ⟨[], 0, 0, false⟩ .plain c).Tracks (.first c) :=
                .push_plain rfl rfl rfl rfl hreturn (by simpa using hfeed)
              obtain ⟨last, htracks, hescaped, hopen, hrest⟩ :=
                hstart.scanWord (0 < depth) h
              refine ⟨htracks.writable hescaped depth, ?_, hrest⟩
              intro hisOpen
              have hquoted := htracks.isOpen
              simp only [Lexeme.isOpen, WordScan.lexeme, String.toList_ofList, wordAt] at hisOpen
              rw [hisOpen] at hquoted
              exact hopen (of_decide_eq_true hquoted.symm)

/-- What is read from a line can be written. -/
theorem lexemes_writable {depth : Nat} {cs : List Char} (h : Requotable .plain cs = true) :
    Writable depth (lexemes depth cs) := by
  fun_induction lexemes depth cs with
  | case1 => trivial
  | case2 depth c rest hgap ih =>
    refine ih ?_
    rwa [requotable_plain (by rintro rfl; cases hgap) (by rintro rfl; cases hgap)] at h
  | case3 depth c rest hgap ih =>
    obtain ⟨hwritable, hopen, hrest⟩ := lexemeAt_writable depth (Bool.eq_false_iff.mpr hgap) h
    refine ⟨hwritable, ?_, ih hrest⟩
    intro hisOpen
    rw [hopen hisOpen, lexemes_nil]

/-! ## What is written is read again -/

namespace WordScan

/-- The mode between two characters of a text, inside or outside quotes. -/
def modeIn (quoted : Bool) : WordMode := if quoted then .quoted else .plain

/-- What the word knows of itself, while it is read inside or outside quotes. -/
def shape (w : WordScan) (quoted : Bool) : WordShape := ⟨quoted, w.regions, w.bare, true⟩

variable {w : WordScan} {quoted : Bool} {c : Char}

/-- One character of the text, with its caret if it has one. -/
theorem scanWord_escapeWord_cons (inBlock : Bool) (hclean : ((w.shape quoted).step c).clean = true)
    (text rest : List Char) :
    ∃ quoted' w', w'.text = c :: w.text ∧ (w.shape quoted).step c = w'.shape quoted' ∧
      scanWord inBlock (modeIn quoted) w (escapeWord quoted (c :: text) ++ rest) =
        scanWord inBlock (modeIn quoted') w' (escapeWord quoted' text ++ rest) := by
  by_cases hquote : c = '"'
  · subst hquote
    refine ⟨!quoted, w.push (modeIn quoted) '"', ?_, ?_, ?_⟩
    · cases quoted <;> simp [push]
    · cases quoted <;> simp [push, shape, modeIn, WordShape.step_quote]
    · cases quoted <;> rfl
  · rw [WordShape.step_of_ne hquote] at hclean ⊢
    simp only [shape, Bool.true_and, Bool.and_eq_true, bne_iff_ne] at hclean
    obtain ⟨hfeed, hreturn⟩ := hclean
    cases quoted with
    | true =>
      refine ⟨true, w.push .quoted c, ?_, ?_, ?_⟩
      · simp [push]
      · simp [push, shape, hfeed]
      · simp [escapeWord, hquote, scanWord, modeIn, WordMode.next, hfeed]
    | false =>
      have hreturn : c ≠ '\r' := by simpa using hreturn
      cases hcaret : needsCaret c with
      | true =>
        refine ⟨false, (w.push .plain '^').push .escaped c, ?_, ?_, ?_⟩
        · simp [push]
        · simp [push, shape, hfeed, hreturn]
        · simp [escapeWord, hquote, hcaret, scanWord, modeIn, WordMode.next, hfeed]
      | false =>
        have hnext := WordMode.next_of_not_needsCaret inBlock hcaret hquote hreturn hfeed
        refine ⟨false, w.push .plain c, ?_, ?_, ?_⟩
        · have : c ≠ '^' := by
            rintro rfl
            cases hcaret
          simp [push, this]
        · simp [push, shape, hfeed, hreturn, hquote]
        · simp [escapeWord, hquote, hcaret, scanWord, modeIn, hnext]

/-- The written text is read to its end. -/
theorem scanWord_escapeWord (w : WordScan) (quoted inBlock : Bool) {text rest : List Char}
    (hclean : (text.foldl .step (w.shape quoted)).clean = true)
    (hopen : (text.foldl .step (w.shape quoted)).isOpen = true → rest = []) (hrest : Apart rest) :
    ∃ quoted' w', w'.text = text.reverse ++ w.text ∧ text.foldl .step (w.shape quoted) = w'.shape quoted' ∧
      scanWord inBlock (modeIn quoted) w (escapeWord quoted text ++ rest) = (w', rest) := by
  induction text generalizing w quoted with
  | nil =>
    refine ⟨quoted, w, rfl, rfl, ?_⟩
    obtain rfl | ⟨more, rfl⟩ := hrest
    · rfl
    · cases quoted with
      | false => rfl
      | true => cases hopen rfl
  | cons c text ih =>
    obtain ⟨quoted₁, w₁, htext, hshape, hscan⟩ :=
      scanWord_escapeWord_cons inBlock (WordShape.clean_of_foldl hclean) text rest
    rw [List.foldl_cons, hshape] at hclean hopen ⊢
    obtain ⟨quoted', w', htext', hshape', hscan'⟩ := ih w₁ quoted₁ hclean hopen
    refine ⟨quoted', w', ?_, hshape', by rw [hscan, hscan']⟩
    rw [htext', htext, List.reverse_cons, List.append_assoc, List.singleton_append]

end WordScan

/-- Before a written character stands no redirection sign. -/
theorem head?_escapeWord_ne (text : List Char) {rest : List Char} (hrest : Apart rest) {c : Char}
    (hc : c = '<' ∨ c = '>') : ((escapeWord false text ++ rest).head? == some c) = false := by
  cases text with
  | nil => exact hrest.head?_ne (by rintro rfl; simp at hc)
  | cons d text =>
    unfold escapeWord
    split
    · rename_i hd
      obtain rfl | rfl := hc <;> simp [beq_iff_eq.mp hd]
    · split
      · obtain rfl | rfl := hc <;> simp
      · rename_i hcaret
        have hd : d ≠ c := by
          rintro rfl
          obtain rfl | rfl := hc <;> exact hcaret rfl
        simpa using hd

/-- A character that goes on a word starts one, unless a redirection is spelled there. -/
theorem lexemeAt_word {depth : Nat} {c : Char} {rest : List Char} {mode : WordMode}
    (hnext : WordMode.plain.next (0 < depth) c = some mode) (hsign : redirectAt? c rest = none) :
    isGap c = false ∧ lexemeAt depth c rest =
      ((scanWord (0 < depth) .plain ⟨[], 0, 0, false⟩ (c :: rest)).1.lexeme,
        (scanWord (0 < depth) .plain ⟨[], 0, 0, false⟩ (c :: rest)).2) := by
  have hne : isGap c = false ∧ c ≠ '\n' ∧ c ≠ '&' ∧ c ≠ '|' ∧ c ≠ '(' := by
    refine ⟨?_, ?_, ?_, ?_, ?_⟩
    · cases hgap : isGap c with
      | false => rfl
      | true =>
        simp only [isGap, Bool.or_eq_true, beq_iff_eq] at hgap
        obtain (rfl | rfl) | rfl := hgap <;> cases hnext
    all_goals
      rintro rfl
      cases hnext
  have hclose : (c == ')' && decide (0 < depth)) = false := by
    cases hparen : (c == ')' && decide (0 < depth)) with
    | false => rfl
    | true =>
      simp only [Bool.and_eq_true, beq_iff_eq] at hparen
      obtain ⟨rfl, hdepth⟩ := hparen
      simp [WordMode.next, endsWord, hdepth] at hnext
  obtain ⟨hgap, hfeed, hamp, hbar, hopenParen⟩ := hne
  refine ⟨hgap, ?_⟩
  simp only [lexemeAt, hclose, hsign, wordAt, scanWord, hnext, WordMode.eq_first_of_next hnext]
  simp [hfeed, hamp, hbar, hopenParen]

/-- The first written character starts a word, and nothing else. -/
theorem escapeWord_cons_starts (inBlock : Bool) {d : Char} (hreturn : d ≠ '\r') (hfeed : d ≠ '\n')
    (text : List Char) {rest : List Char} (hrest : Apart rest) :
    ∃ c tail mode, escapeWord false (d :: text) = c :: tail ∧ WordMode.plain.next inBlock c = some mode ∧
      redirectAt? c (tail ++ rest) = none := by
  by_cases hquote : d = '"'
  · subst hquote
    exact ⟨'"', escapeWord true text, .quoted, rfl, rfl, rfl⟩
  · cases hcaret : needsCaret d with
    | true => exact ⟨'^', d :: escapeWord false text, .escaped, by simp [escapeWord, hquote, hcaret], rfl, rfl⟩
    | false =>
      refine ⟨d, escapeWord false text, .plain, by simp [escapeWord, hquote, hcaret],
        WordMode.next_of_not_needsCaret inBlock hcaret hquote hreturn hfeed, ?_⟩
      have hsign : d ≠ '<' ∧ d ≠ '>' := by
        constructor <;> rintro rfl <;> cases hcaret
      simp only [redirectAt?, beq_eq_false_iff_ne.mpr hsign.1, beq_eq_false_iff_ne.mpr hsign.2,
        head?_escapeWord_ne text hrest (.inl rfl), head?_escapeWord_ne text hrest (.inr rfl),
        Bool.false_eq_true, if_false]
      cases digit? d <;> rfl

/-- A word that is written is read. -/
theorem lexemeAt_escapeWord {depth : Nat} {text : String} {quoted : Bool} {rest : List Char}
    (h : (Lexeme.word text quoted).Writable depth)
    (hopen : (wordShape text.toList).isOpen = true → rest = []) (hrest : Apart rest) :
    ∃ c tail, escapeWord false text.toList = c :: tail ∧ isGap c = false ∧
      lexemeAt depth c (tail ++ rest) = (.word text quoted, rest) := by
  obtain ⟨hne, hclean, hquoted⟩ := h
  obtain ⟨quoted', w, htext, hshape, hscan⟩ :=
    WordScan.scanWord_escapeWord ⟨[], 0, 0, false⟩ false (0 < depth) hclean hopen hrest
  have hlexeme : w.lexeme = .word text quoted := by
    have hregions : (wordShape text.toList).regions = w.regions := congrArg WordShape.regions hshape
    have hbare : (wordShape text.toList).bare = w.bare := congrArg WordShape.bare hshape
    rw [hquoted, hregions, hbare, WordScan.lexeme, htext]
    simp
  obtain ⟨d, text', hd⟩ := List.exists_cons_of_ne_nil hne
  rw [hd] at hclean hscan ⊢
  have hstart : d ≠ '\r' ∧ d ≠ '\n' := by
    have hfirst := WordShape.clean_of_foldl (s := WordShape.empty.step d) hclean
    constructor <;> rintro rfl <;> cases hfirst
  obtain ⟨c, tail, mode, hsource, hnext, hsign⟩ :=
    escapeWord_cons_starts (0 < depth) hstart.1 hstart.2 text' hrest
  obtain ⟨hgap, hat⟩ := lexemeAt_word hnext hsign
  refine ⟨c, tail, hsource, hgap, ?_⟩
  rw [hsource] at hscan
  rw [hat, ← hlexeme]
  exact congrArg (fun r => (WordScan.lexeme r.1, r.2)) hscan

/-- An operator that is written is read. -/
theorem lexemeAt_operator {depth : Nat} {op : Operator} {rest : List Char} (h : op = .closeParen → 0 < depth)
    (hrest : Apart rest) :
    ∃ c tail, op.text.toList = c :: tail ∧ isGap c = false ∧
      lexemeAt depth c (tail ++ rest) = (.operator op, rest) := by
  have hamp : (rest.head? == some '&') = false := hrest.head?_ne (by decide)
  have hbar : (rest.head? == some '|') = false := hrest.head?_ne (by decide)
  cases op with
  | both => exact ⟨'&', [], rfl, rfl, by simp [lexemeAt, hamp]⟩
  | andThen => exact ⟨'&', ['&'], rfl, rfl, rfl⟩
  | pipe => exact ⟨'|', [], rfl, rfl, by simp [lexemeAt, hbar]⟩
  | orElse => exact ⟨'|', ['|'], rfl, rfl, rfl⟩
  | openParen => exact ⟨'(', [], rfl, rfl, rfl⟩
  | closeParen => exact ⟨')', [], rfl, rfl, by simp [lexemeAt, h rfl]⟩
  | lineBreak => exact ⟨'\n', [], rfl, rfl, rfl⟩

/-- A lexeme that is written is read. -/
theorem lexemes_source {depth : Nat} {l : Lexeme} {rest : List Char} (h : l.Writable depth)
    (hopen : l.isOpen = true → rest = []) (hrest : Apart rest) :
    lexemes depth (l.source.toList ++ rest) = l :: lexemes (l.depthAfter depth) rest := by
  obtain ⟨c, tail, hsource, hgap, hat⟩ : ∃ c tail, l.source.toList = c :: tail ∧ isGap c = false ∧
      lexemeAt depth c (tail ++ rest) = (l, rest) := by
    cases l with
    | word text quoted =>
      obtain ⟨c, tail, hsource, hread⟩ := lexemeAt_escapeWord h hopen hrest
      exact ⟨c, tail, by rw [Lexeme.source, String.toList_ofList, hsource], hread⟩
    | operator op => exact lexemeAt_operator h hrest
    | redirect sign =>
      obtain ⟨c, tail, size, hsource, hsign⟩ := redirectAt?_of_text h hrest
      exact ⟨c, tail, hsource, lexemeAt_redirect hsign depth⟩
  rw [hsource, List.cons_append, lexemes_cons hgap, hat]

/-- The characters of a written line. -/
def written (ls : List Lexeme) : List Char := [' '].intercalate (ls.map fun l => l.source.toList)

/-- What is writable is read again. -/
theorem lexemes_written {depth : Nat} {ls : List Lexeme} (h : Writable depth ls) :
    lexemes depth (written ls) = ls := by
  induction ls generalizing depth with
  | nil => exact lexemes_nil depth
  | cons l ls ih =>
    obtain ⟨hwritable, hopen, hmore⟩ := h
    have hmore := ih hmore
    cases ls with
    | nil =>
      have hwritten : written [l] = l.source.toList ++ [] := by simp [written]
      rw [hwritten, lexemes_source hwritable (fun _ => rfl) (.inl rfl), lexemes_nil]
    | cons l' ls =>
      have hwritten : written (l :: l' :: ls) = l.source.toList ++ ' ' :: written (l' :: ls) := by
        simp [written, List.intercalate_cons_cons]
      rw [hwritten, lexemes_source hwritable (fun ho => by cases hopen ho) (.inr ⟨_, rfl⟩),
        lexemes_gap rfl, hmore]

theorem Token.toList_sourceLine (ts : List Token) :
    (Token.sourceLine ts).toList = written (ts.map (·.lexeme)) := by
  simp [Token.sourceLine, written, String.toList_intercalate, Function.comp_def]

/-- **Quoting is faithful**: on a line that can be written back, reading what is written gives the lexemes that
were written, words with their quotes and operators alike. -/
theorem Token.scan_sourceLine_scan (line : String) (h : Requotable .plain line.toList = true) :
    (Token.scan (Token.sourceLine (Token.scan line))).map (·.lexeme) =
      (Token.scan line).map (·.lexeme) := by
  rw [map_lexeme_scan, Token.toList_sourceLine, map_lexeme_scan]
  exact lexemes_written (lexemes_writable h)

/-- Carets, parentheses, a copied stream and a quote that stays open. -/
theorem Token.scan_sourceLine_scan_block :
    let line := "(a^&b^ 2^>c\t&& d\"^ \"e 2>&1) || f ) >>\"g "
    Requotable .plain line.toList = true ∧
      (Token.scan (Token.sourceLine (Token.scan line))).map (·.lexeme) =
        (Token.scan line).map (·.lexeme) := by
  intro line
  have h : Requotable .plain line.toList = true := by decide
  exact ⟨h, Token.scan_sourceLine_scan line h⟩

end BatchShell
