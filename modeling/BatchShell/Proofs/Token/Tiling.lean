import BatchShell.Proofs.Token.Lexemes

/-!
# Where the tokens of a line stand

The tokens tile their line. Each stands right behind the one before it and its own white space, spans at least one
character, and nothing but white space is left at the end (`Tiles`). So no character is lost between two tokens, and
none belongs to two of them.

A closing parenthesis is a token of its own only where one is open, so reading from the left the parentheses are never
closed more often than they were opened.

* `scanFrom_tiles`: the scanner makes tiles, from any place on.
* `count_closeParen_le`: the parentheses of a text inside others.
* `Token.scan_tiles_line`: what this means for the tokens of a line.
-/
namespace BatchShell

/-- From place `pos` on, the tokens tile a text: white space and the characters that spell a token take turns, and the
text ends in white space. -/
inductive Tiles : Nat → List Char → List Token → Prop
  | space {pos : Nat} {gap : List Char} (hgap : ∀ c ∈ gap, isGap c = true) : Tiles pos gap []
  | token {pos : Nat} {gap spelled rest : List Char} {t : Token} {ts : List Token} (hgap : ∀ c ∈ gap, isGap c = true)
    (hspelled : spelled ≠ []) (hleading : t.leading = String.ofList gap) (hstart : t.start = pos + gap.length)
    (hstop : t.stop = t.start + spelled.length) (hrest : Tiles t.stop rest ts) :
    Tiles pos (gap ++ (spelled ++ rest)) (t :: ts)

section

variable {pos : Nat} {leading cs : List Char} {ts before after : List Token} {t : Token}

/-- Read from place `pos + leading.length` on, the scanner's new tokens tile the text with the white space that it
carries along in front. -/
theorem scanFrom_tiles (depth pos : Nat) (leading : List Char) (done : List Token) (cs : List Char)
    (hleading : ∀ c ∈ leading, isGap c = true) :
    ∃ new, scanFrom depth (pos + leading.length) leading done cs = done.reverse ++ new ∧
      Tiles pos (leading.reverse ++ cs) new := by
  have hgap : ∀ c ∈ leading.reverse, isGap c = true := fun c hc => hleading c (List.mem_reverse.mp hc)
  fun_induction lexemes depth cs generalizing pos leading done with
  | case1 =>
    refine ⟨[], by simp [scanFrom], ?_⟩
    rw [List.append_nil]
    exact .space hgap
  | case2 depth c rest hc ih =>
    have hmore : ∀ d ∈ c :: leading, isGap d = true := List.forall_mem_cons.mpr ⟨hc, hleading⟩
    obtain ⟨new, hscan, htiles⟩ := ih pos (c :: leading) done hmore fun d hd => hmore d (List.mem_reverse.mp hd)
    refine ⟨new, (scanFrom_gap hc).trans hscan, ?_⟩
    rw [List.reverse_cons, List.append_assoc] at htiles
    exact htiles
  | case3 depth c rest hc ih =>
    rw [Bool.not_eq_true] at hc
    obtain ⟨spelled, hspelled, hstep⟩ : ∃ spelled, rest = _ ∧
      scanFrom depth (pos + leading.length) leading done (c :: rest) = _ := scanFrom_spelled hc
    let t : Token := ⟨(lexemeAt depth c rest).1, pos + leading.length, pos + leading.length + (spelled.length + 1),
      String.ofList leading.reverse⟩
    obtain ⟨new, hscan, htiles⟩ := ih t.stop [] (t :: done) (List.forall_mem_nil _) (List.forall_mem_nil _)
    refine ⟨t :: new, ?_, ?_⟩
    · rw [hstep]
      simpa using hscan
    · have hline : leading.reverse ++ c :: rest =
          leading.reverse ++ (c :: spelled ++ (lexemeAt depth c rest).2) := by
        rw [List.cons_append, ← hspelled]
      rw [hline]
      exact .token hgap (List.cons_ne_nil c spelled) rfl (by rw [List.length_reverse]) rfl htiles

/-- A token spans characters, and has white space in front. -/
theorem Tiles.of_mem (h : Tiles pos cs ts) (ht : t ∈ ts) :
    t.start < t.stop ∧ ∀ c ∈ t.leading.toList, isGap c = true := by
  induction h with
  | space => cases ht
  | token hgap hspelled hleading hstart hstop _ ih =>
    obtain rfl | ht := List.mem_cons.mp ht
    · have hpos := List.length_pos_iff.mpr hspelled
      refine ⟨by omega, ?_⟩
      rwa [hleading, String.toList_ofList]
    · exact ih ht

/-- A token starts behind the one before it and its white space. -/
theorem Tiles.start_eq (h : Tiles pos cs (before ++ t :: after)) :
    t.start = (before.getLast?.map (·.stop)).getD pos + t.leading.length := by
  induction before generalizing pos cs with
  | nil =>
    cases h with
    | token _ _ hleading hstart =>
      rw [hstart, hleading, String.length_ofList]
      rfl
  | cons u before ih =>
    cases h with
    | token _ _ _ _ _ hrest =>
      rw [ih hrest]
      cases before with
      | nil => rfl
      | cons v before => rw [List.getLast?_cons_cons, List.getLast?_eq_some_getLast (List.cons_ne_nil v before)]; rfl

/-- White space and characters of the tokens, put together, are the text, but for white space at the end. The text
may stand behind others. -/
theorem Tiles.put_together (h : Tiles pos cs ts) (front : List Char) (hfront : front.length = pos) :
    ∃ trailing, (∀ c ∈ trailing, isGap c = true) ∧
      cs = (ts.flatMap fun t => t.leading.toList ++ (front ++ cs).extract t.start t.stop) ++ trailing := by
  induction h generalizing front with
  | @space pos gap hgap => exact ⟨gap, hgap, rfl⟩
  | @token pos gap spelled rest t ts hgap _ hleading hstart hstop _ ih =>
    have hstop' : (front ++ gap ++ spelled).length = t.stop := by
      rw [hstop, hstart, List.length_append, List.length_append, hfront]
    obtain ⟨trailing, htrailing, hrest⟩ := ih (front ++ gap ++ spelled) hstop'
    refine ⟨trailing, htrailing, ?_⟩
    have hline : front ++ (gap ++ (spelled ++ rest)) = front ++ gap ++ spelled ++ rest := by
      simp only [List.append_assoc]
    have hspan : (front ++ gap ++ spelled ++ rest).extract t.start t.stop = spelled := by
      have hstart' : t.start = (front ++ gap).length := by rw [hstart, List.length_append, hfront]
      rw [List.extract_eq_take_drop, hstop, Nat.add_sub_cancel_left, hstart', List.append_assoc, List.drop_left,
        List.take_left]
    rw [hline, List.flatMap_cons, hspan, hleading, String.toList_ofList, List.append_assoc, List.append_assoc, ← hrest]

end

/-! ## Parentheses -/

/-- Inside `depth` parentheses no more than these are closed, beside those that the text opened before. -/
theorem count_closeParen_le (depth : Nat) (cs : List Char) {ls : List Lexeme} (h : ls <+: lexemes depth cs) :
    ls.count (.operator .closeParen) ≤ depth + ls.count (.operator .openParen) := by
  fun_induction lexemes depth cs generalizing ls with
  | case1 =>
    rw [List.prefix_nil.mp h]
    exact Nat.zero_le _
  | case2 depth c rest _ ih => exact ih h
  | case3 depth c rest _ ih =>
    cases ls with
    | nil => exact Nat.zero_le _
    | cons l ls =>
      obtain ⟨hl, hls⟩ := List.cons_prefix_cons.mp h
      have hmore := ih hls
      rw [← hl] at hmore
      by_cases hclose : l = .operator .closeParen
      · have hdepth := lexemeAt_closeParen (hl ▸ hclose)
        subst hclose
        change ls.count _ ≤ depth - 1 + ls.count _ at hmore
        rw [List.count_cons_self, List.count_cons_of_ne (by decide)]
        omega
      · by_cases hopen : l = .operator .openParen
        · subst hopen
          change ls.count _ ≤ depth + 1 + ls.count _ at hmore
          rw [List.count_cons_self, List.count_cons_of_ne (by decide)]
          omega
        · have hstay : l.depthAfter depth = depth := by
            unfold Lexeme.depthAfter
            split
            · exact absurd rfl hopen
            · exact absurd rfl hclose
            · rfl
          rw [hstay] at hmore
          rwa [List.count_cons_of_ne hclose, List.count_cons_of_ne hopen]

theorem countP_isOp (ts : List Token) (op : Operator) :
    ts.countP (·.isOp op) = (ts.map (·.lexeme)).count (.operator op) := by
  rw [List.count, List.countP_map]
  rfl

/-! ## The line -/

/-- **The tokens tile the line.** Every token spans characters and has only white space in front. It starts behind the
one before it, or at the start of the line, and its white space. Put together, the white space and the spans of the
tokens are the line, but for white space at the end. And from the left, no more parentheses are closed than opened. -/
theorem Token.scan_tiles_line (line : String) :
    (∀ t ∈ Token.scan line, t.start < t.stop ∧ ∀ c ∈ t.leading.toList, isGap c = true) ∧
    (∀ before t after, Token.scan line = before ++ t :: after →
      t.start = (before.getLast?.map (·.stop)).getD 0 + t.leading.length) ∧
    (∃ trailing, (∀ c ∈ trailing, isGap c = true) ∧ line.toList =
      ((Token.scan line).flatMap fun t => t.leading.toList ++ line.toList.extract t.start t.stop) ++ trailing) ∧
    ∀ before, before <+: Token.scan line →
      before.countP (·.isOp .closeParen) ≤ before.countP (·.isOp .openParen) := by
  obtain ⟨new, hscan, htiles⟩ := scanFrom_tiles 0 0 [] [] line.toList (List.forall_mem_nil _)
  have hline : Tiles 0 line.toList (Token.scan line) := by
    rw [Token.scan]
    exact hscan ▸ htiles
  refine ⟨fun t => hline.of_mem, fun before t after h => ?_, hline.put_together [] rfl,
    fun before h => ?_⟩
  · rw [h] at hline
    exact hline.start_eq
  · have hlexemes : before.map (·.lexeme) <+: lexemes 0 line.toList := by
      rw [← map_lexeme_scan]
      exact h.map _
    rw [countP_isOp, countP_isOp]
    have hcount := count_closeParen_le 0 line.toList hlexemes
    rwa [Nat.zero_add] at hcount

/-- A block with a quoted parenthesis: the block's own stands behind the name of the file, and after it the one that
was opened is closed. -/
theorem Token.scan_tiles_line_block :
    let line := "\t(ECHO \" )\" 2>>f) & "
    let close : Token := ⟨.operator .closeParen, 16, 17, ""⟩
    close ∈ Token.scan line ∧ close.start < close.stop ∧ (Token.scan line).take 6 <+: Token.scan line ∧
      ((Token.scan line).take 6).countP (·.isOp .closeParen) ≤ ((Token.scan line).take 6).countP (·.isOp .openParen) ∧
      line.toList.extract 12 15 = "2>>".toList := by
  obtain ⟨hmem, -, -, hcount⟩ := Token.scan_tiles_line "\t(ECHO \" )\" 2>>f) & "
  have hclose : (⟨.operator .closeParen, 16, 17, ""⟩ : Token) ∈ Token.scan "\t(ECHO \" )\" 2>>f) & " := by
    decide +kernel
  exact ⟨hclose, (hmem _ hclose).1, List.take_prefix _ _, hcount _ (List.take_prefix _ _), by decide +kernel⟩

end BatchShell
