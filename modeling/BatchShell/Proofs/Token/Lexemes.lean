import BatchShell.Token

/-!
# One lexeme after another

The scanner carries the place, the white space and the tokens read so far along. What the tokens say depends
on none of them: `lexemes` reads one lexeme (`lexemeAt`), takes note of the parentheses it opens or closes,
and goes on with what follows, and `map_lexeme_scanFrom` says that this is what the scanner reads.

What spells a redirection sign is exactly its text (`redirectAt?_text`), and its text before white space
spells it (`redirectAt?_of_text`).
-/
namespace BatchShell

/-- White space between tokens. -/
def isGap (c : Char) : Bool := c == ' ' || c == '\t' || c == '\r'

/-- How many parentheses are unmatched after a lexeme. -/
def Lexeme.depthAfter (depth : Nat) : Lexeme → Nat
  | .operator .openParen => depth + 1
  | .operator .closeParen => depth - 1
  | _ => depth

/-- The lexeme that starts at `c`, which is no white space, and what follows it. -/
def lexemeAt (depth : Nat) (c : Char) (rest : List Char) : Lexeme × List Char :=
  if c == '\n' then (.operator .lineBreak, rest)
  else if c == '&' then
    if rest.head? == some '&' then (.operator .andThen, rest.drop 1) else (.operator .both, rest)
  else if c == '|' then
    if rest.head? == some '|' then (.operator .orElse, rest.drop 1) else (.operator .pipe, rest)
  else if c == '(' then (.operator .openParen, rest)
  else if c == ')' && 0 < depth then (.operator .closeParen, rest)
  else
    match redirectAt? c rest with
    | some (sign, _, after) => (.redirect sign, after)
    | none => ((wordAt (0 < depth) c rest).1.lexeme, (wordAt (0 < depth) c rest).2)

/-- A closing parenthesis is read only inside others. -/
theorem lexemeAt_closeParen {depth : Nat} {c : Char} {rest : List Char}
    (h : (lexemeAt depth c rest).1 = .operator .closeParen) : 0 < depth := by
  unfold lexemeAt at h
  split at h
  · cases h
  · split at h
    · split at h <;> cases h
    · split at h
      · split at h <;> cases h
      · split at h
        · cases h
        · split at h
          · rename_i hclose
            exact of_decide_eq_true (Bool.and_eq_true_iff.mp hclose).2
          · split at h <;> cases h

theorem length_lexemeAt_le (depth : Nat) (c : Char) (rest : List Char) :
    (lexemeAt depth c rest).2.length ≤ rest.length := by
  unfold lexemeAt
  split
  · exact Nat.le_refl _
  · split
    · split <;> simp
    · split
      · split <;> simp
      · split
        · exact Nat.le_refl _
        · split
          · exact Nat.le_refl _
          · split
            · rename_i h
              exact length_redirectAt?_le h
            · exact length_wordAt_le ..

/-- The lexemes of a text inside `depth` parentheses. -/
def lexemes (depth : Nat) : List Char → List Lexeme
  | [] => []
  | c :: rest =>
    if isGap c then lexemes depth rest
    else
      (lexemeAt depth c rest).1 ::
        lexemes ((lexemeAt depth c rest).1.depthAfter depth) (lexemeAt depth c rest).2
  termination_by cs => cs.length
  decreasing_by
    · exact Nat.lt_succ_self _
    · exact Nat.lt_succ_of_le (length_lexemeAt_le depth c rest)

@[simp] theorem lexemes_nil (depth : Nat) : lexemes depth [] = [] := by rw [lexemes]

theorem lexemes_gap {c : Char} (h : isGap c = true) (depth : Nat) (rest : List Char) :
    lexemes depth (c :: rest) = lexemes depth rest := by
  rw [lexemes, if_pos h]

theorem lexemes_cons {c : Char} (h : isGap c = false) (depth : Nat) (rest : List Char) :
    lexemes depth (c :: rest) = (lexemeAt depth c rest).1 ::
      lexemes ((lexemeAt depth c rest).1.depthAfter depth) (lexemeAt depth c rest).2 := by
  rw [lexemes, if_neg (by simp [h])]

/-! ## The scanner -/

variable {depth pos : Nat} {leading : List Char} {done : List Token} {c : Char} {rest : List Char}

theorem scanFrom_gap (h : isGap c = true) :
    scanFrom depth pos leading done (c :: rest) = scanFrom depth (pos + 1) (c :: leading) done rest := by
  rw [scanFrom]
  exact if_pos h

theorem scanRedirect_spelled (handle : Option (Fin 10)) (output : Bool) (cs : List Char) :
    ∃ spelled, cs = spelled ++ (scanRedirect handle output cs).2.2 ∧
      (scanRedirect handle output cs).2.1 = spelled.length := by
  unfold scanRedirect
  split
  · rename_i hdouble
    obtain ⟨more, rfl⟩ := List.head?_eq_some_iff.mp (beq_iff_eq.mp (Bool.and_eq_true_iff.mp hdouble).2)
    exact ⟨['>'], rfl, rfl⟩
  · split
    · rename_i hamp
      obtain ⟨more, rfl⟩ := List.head?_eq_some_iff.mp (beq_iff_eq.mp hamp)
      split
      · rename_i d hdigit
        obtain ⟨last, hlast, -⟩ := Option.bind_eq_some_iff.mp hdigit
        obtain ⟨more, rfl⟩ := List.head?_eq_some_iff.mp hlast
        exact ⟨['&', last], rfl, rfl⟩
      · exact ⟨[], rfl, rfl⟩
    · exact ⟨[], rfl, rfl⟩

theorem redirectAt?_spelled {sign : RedirectSign} {size : Nat} {after : List Char}
    (h : redirectAt? c rest = some (sign, size, after)) :
    ∃ spelled, rest = spelled ++ after ∧ size = spelled.length + 1 := by
  have hafter : ∀ (handle : Option (Fin 10)) (output : Bool) (lead : List Char) (cs : List Char),
      (scanRedirect handle output cs).2.2 = after → lead.length + 1 + (scanRedirect handle output cs).2.1 = size →
      ∃ spelled, lead ++ cs = spelled ++ after ∧ size = spelled.length + 1 := by
    rintro handle output lead cs rfl rfl
    obtain ⟨spelled, hspelled, hsize⟩ := scanRedirect_spelled handle output cs
    refine ⟨lead ++ spelled, ?_, ?_⟩
    · rw [List.append_assoc, ← hspelled]
    · rw [hsize, List.length_append]
      omega
  unfold redirectAt? at h
  extract_lets finish at h
  split at h
  · cases h
    exact hafter none false [] _ rfl (by simp)
  · split at h
    · cases h
      exact hafter none true [] _ rfl (by simp)
    · split at h
      · rename_i d hdigit
        split at h
        · rename_i hnext
          obtain ⟨more, rfl⟩ := List.head?_eq_some_iff.mp (beq_iff_eq.mp hnext)
          cases h
          exact hafter (some d) false ['<'] _ rfl (by simp)
        · split at h
          · rename_i hnext
            obtain ⟨more, rfl⟩ := List.head?_eq_some_iff.mp (beq_iff_eq.mp hnext)
            cases h
            exact hafter (some d) true ['>'] _ rfl (by simp)
          · cases h
      · cases h

theorem WordScan.size_push (w : WordScan) (mode : WordMode) (c : Char) : (w.push mode c).size = w.size + 1 := rfl

theorem scanWord_spelled (inBlock : Bool) (mode : WordMode) (w : WordScan) (cs : List Char) :
    ∃ spelled, cs = spelled ++ (scanWord inBlock mode w cs).2 ∧
      (scanWord inBlock mode w cs).1.size = w.size + spelled.length := by
  induction cs generalizing mode w with
  | nil => exact ⟨[], rfl, rfl⟩
  | cons c cs ih =>
    rw [scanWord]
    split
    · exact ⟨[], rfl, rfl⟩
    · rename_i mode' _
      obtain ⟨spelled, hspelled, hsize⟩ := ih mode' (w.push mode c)
      refine ⟨c :: spelled, ?_, ?_⟩
      · rw [List.cons_append, ← hspelled]
      · rw [hsize, List.length_cons, WordScan.size_push]
        omega

/-- The scanner makes a token of the lexeme that it finds, over the characters that spell it, and goes on after
them. -/
theorem scanFrom_spelled (h : isGap c = false) :
    ∃ spelled, rest = spelled ++ (lexemeAt depth c rest).2 ∧ scanFrom depth pos leading done (c :: rest) =
      scanFrom ((lexemeAt depth c rest).1.depthAfter depth) (pos + (spelled.length + 1)) []
        (⟨(lexemeAt depth c rest).1, pos, pos + (spelled.length + 1), String.ofList leading.reverse⟩ :: done)
        (lexemeAt depth c rest).2 := by
  have hgap : ¬ (c == ' ' || c == '\t' || c == '\r') = true := by
    intro hblank
    rw [isGap, hblank] at h
    cases h
  rw [scanFrom]
  extract_lets emit
  rw [if_neg hgap]
  unfold lexemeAt
  -- both sides ask the same questions
  split
  · exact ⟨[], rfl, rfl⟩
  · split
    · split
      · rename_i hnext
        obtain ⟨more, rfl⟩ := List.head?_eq_some_iff.mp (beq_iff_eq.mp hnext)
        exact ⟨['&'], rfl, rfl⟩
      · exact ⟨[], rfl, rfl⟩
    · split
      · split
        · rename_i hnext
          obtain ⟨more, rfl⟩ := List.head?_eq_some_iff.mp (beq_iff_eq.mp hnext)
          exact ⟨['|'], rfl, rfl⟩
        · exact ⟨[], rfl, rfl⟩
      · split
        · exact ⟨[], rfl, rfl⟩
        · split
          · exact ⟨[], rfl, rfl⟩
          · split
            · rename_i sign size after hsign
              obtain ⟨spelled, hspelled, rfl⟩ := redirectAt?_spelled hsign
              rw [hsign]
              exact ⟨spelled, hspelled, rfl⟩
            · rename_i hword
              obtain ⟨spelled, hspelled, hsize⟩ := scanWord_spelled (0 < depth) (WordMode.first c)
                (WordScan.push ⟨[], 0, 0, false⟩ .plain c) rest
              have hsize' : (wordAt (0 < depth) c rest).1.size = spelled.length + 1 := by
                rw [wordAt, hsize, WordScan.size_push]
                exact Nat.add_comm 1 spelled.length
              rw [hword, hsize']
              exact ⟨spelled, hspelled, rfl⟩

/-- The scanner makes a token of the lexeme that it finds, and goes on after it. -/
theorem scanFrom_cons (h : isGap c = false) :
    ∃ size, scanFrom depth pos leading done (c :: rest) =
      scanFrom ((lexemeAt depth c rest).1.depthAfter depth) (pos + size) []
        (⟨(lexemeAt depth c rest).1, pos, pos + size, String.ofList leading.reverse⟩ :: done)
        (lexemeAt depth c rest).2 := by
  obtain ⟨spelled, -, hstep⟩ : ∃ spelled, rest = _ ∧ scanFrom depth pos leading done (c :: rest) = _ :=
    scanFrom_spelled h
  exact ⟨spelled.length + 1, hstep⟩

/-- The scanner reads one lexeme after another. -/
theorem map_lexeme_scanFrom (depth pos : Nat) (leading : List Char) (done : List Token) (cs : List Char) :
    (scanFrom depth pos leading done cs).map (·.lexeme) =
      (done.map (·.lexeme)).reverse ++ lexemes depth cs := by
  fun_induction lexemes depth cs generalizing pos leading done with
  | case1 => simp [scanFrom]
  | case2 depth c rest hgap ih => rw [scanFrom_gap hgap, ih]
  | case3 depth c rest hgap ih =>
    obtain ⟨size, hstep⟩ : ∃ size, scanFrom depth pos leading done (c :: rest) = _ :=
      scanFrom_cons (Bool.eq_false_iff.mpr hgap)
    rw [hstep, ih, List.map_cons, List.reverse_cons, List.append_assoc, List.singleton_append]

theorem map_lexeme_scan (line : String) : (Token.scan line).map (·.lexeme) = lexemes 0 line.toList :=
  map_lexeme_scanFrom 0 0 [] [] line.toList

/-! ## Redirection signs -/

theorem digit?_eq_some_iff {c : Char} {d : Fin 10} : digit? c = some d ↔ c = Nat.digitChar d := by
  constructor
  · intro h
    unfold digit? at h
    split at h
    · rename_i hrange
      have hdigit : ∀ n < 10, Nat.digitChar n = Char.ofNat (48 + n) := by decide
      have hlow : 48 ≤ c.toNat := hrange.1
      cases h
      rw [hdigit _ (by have : c.toNat ≤ 57 := hrange.2; omega), Nat.add_sub_cancel' hlow, Char.ofNat_toNat]
    · cases h
  · rintro rfl
    revert d
    decide

@[simp] theorem digit?_digitChar (d : Fin 10) : digit? (Nat.digitChar d) = some d := digit?_eq_some_iff.mpr rfl

@[simp] theorem toList_digitText (d : Fin 10) : (digitText d).toList = [Nat.digitChar d] := by
  revert d
  decide

/-- The stream digit before a sign. -/
def digitBefore (handle : Option (Fin 10)) : List Char := (handle.map fun d => Nat.digitChar d.val).toList

/-- The characters after the first `<` or `>` of a sign. -/
def RedirectOp.signTail (op : RedirectOp) (copyOf : Option (Fin 10)) : List Char :=
  match op, copyOf with
  | .append, _ => ['>']
  | _, some d => ['&', Nat.digitChar d]
  | _, none => []

/-- The first `<` or `>` of a sign. -/
def RedirectOp.signHead : RedirectOp → Char
  | .input => '<'
  | .output => '>'
  | .append => '>'

/-- A sign for appending copies no stream. -/
def RedirectSign.Coherent (sign : RedirectSign) : Prop := sign.op = .append → sign.copyOf = none

theorem RedirectSign.toList_text {sign : RedirectSign} (h : sign.Coherent) : sign.text.toList =
    digitBefore sign.handle ++ sign.op.signHead :: sign.op.signTail sign.copyOf := by
  obtain ⟨handle, op, copyOf⟩ := sign
  have hhandle : ((handle.map digitText).getD "").toList = digitBefore handle := by
    cases handle <;> simp [digitBefore]
  simp only [RedirectSign.text, String.toList_append, hhandle, List.append_assoc]
  congr 1
  cases copyOf with
  | none => cases op <;> rfl
  | some d =>
    cases op with
    | append => cases h rfl
    | _ => simp [RedirectOp.text, RedirectOp.signHead, RedirectOp.signTail]

/-- What was read after the first sign spells the rest of it. -/
theorem scanRedirect_text {handle : Option (Fin 10)} {output : Bool} {cs after : List Char}
    {sign : RedirectSign} {size : Nat} (h : scanRedirect handle output cs = (sign, size, after)) :
    sign.handle = handle ∧ sign.op.signHead = (if output then '>' else '<') ∧ sign.Coherent ∧
      cs = sign.op.signTail sign.copyOf ++ after := by
  have hplain : ∀ copyOf, RedirectSign.Coherent ⟨handle, .ofSign output, copyOf⟩ := by
    intro copyOf happend
    cases output <;> cases happend
  have htail : (RedirectOp.ofSign output).signTail none = [] := by cases output <;> rfl
  have hcopy : ∀ d, (RedirectOp.ofSign output).signTail (some d) = ['&', Nat.digitChar d] := by
    intro d
    cases output <;> rfl
  have hhead : (RedirectOp.ofSign output).signHead = if output then '>' else '<' := by cases output <;> rfl
  unfold scanRedirect at h
  split at h
  · rename_i hdouble
    simp only [Bool.and_eq_true, beq_iff_eq] at hdouble
    obtain ⟨rfl, hcs⟩ := hdouble
    cases h
    obtain ⟨more, rfl⟩ := List.head?_eq_some_iff.mp hcs
    exact ⟨rfl, rfl, fun _ => rfl, rfl⟩
  · split at h
    · rename_i hamp
      obtain ⟨more, rfl⟩ := List.head?_eq_some_iff.mp (beq_iff_eq.mp hamp)
      split at h
      · rename_i d hdigit
        cases h
        obtain ⟨c, hc, hd⟩ := Option.bind_eq_some_iff.mp hdigit
        obtain ⟨last, hlast⟩ := List.head?_eq_some_iff.mp hc
        rw [digit?_eq_some_iff.mp hd] at hlast
        simp only [List.drop_succ_cons, List.drop_zero] at hlast
        subst hlast
        exact ⟨rfl, hhead, hplain _, by rw [hcopy]; rfl⟩
      · cases h
        exact ⟨rfl, hhead, hplain _, by rw [htail]; rfl⟩
    · cases h
      exact ⟨rfl, hhead, hplain _, by rw [htail]; rfl⟩

/-- The text of a redirection sign is what spells it. -/
theorem redirectAt?_text {c : Char} {rest after : List Char} {sign : RedirectSign} {size : Nat}
    (h : redirectAt? c rest = some (sign, size, after)) :
    sign.Coherent ∧ c :: rest = sign.text.toList ++ after := by
  have hspell : ∀ (handle : Option (Fin 10)) (output : Bool) (cs : List Char), c :: rest =
        digitBefore handle ++ (if output then '>' else '<') :: cs →
      (scanRedirect handle output cs).1 = sign → (scanRedirect handle output cs).2.2 = after →
      sign.Coherent ∧ c :: rest = sign.text.toList ++ after := by
    intro handle output cs hcs hsign hafter
    generalize hscan : scanRedirect handle output cs = r at hsign hafter
    obtain ⟨sign', size', after'⟩ := r
    cases hsign
    cases hafter
    obtain ⟨hhandle, hhead, hcoherent, htail⟩ := scanRedirect_text hscan
    refine ⟨hcoherent, ?_⟩
    rw [RedirectSign.toList_text hcoherent, hhandle, hhead, hcs, htail, List.append_assoc, List.cons_append]
  unfold redirectAt? at h
  extract_lets finish at h
  split at h
  · rename_i hc
    cases h
    exact hspell none false _ (by rw [beq_iff_eq.mp hc]; rfl) rfl rfl
  · split at h
    · rename_i hc
      cases h
      exact hspell none true _ (by rw [beq_iff_eq.mp hc]; rfl) rfl rfl
    · split at h
      · rename_i d hdigit
        split at h
        · rename_i hnext
          obtain ⟨more, rfl⟩ := List.head?_eq_some_iff.mp (beq_iff_eq.mp hnext)
          cases h
          exact hspell (some d) false _ (by rw [digit?_eq_some_iff.mp hdigit]; rfl) rfl rfl
        · split at h
          · rename_i hnext
            obtain ⟨more, rfl⟩ := List.head?_eq_some_iff.mp (beq_iff_eq.mp hnext)
            cases h
            exact hspell (some d) true _ (by rw [digit?_eq_some_iff.mp hdigit]; rfl) rfl rfl
          · cases h
      · cases h

/-- Where a redirection is spelled, it is the lexeme. -/
theorem lexemeAt_redirect {c : Char} {rest after : List Char} {sign : RedirectSign} {size : Nat}
    (h : redirectAt? c rest = some (sign, size, after)) (depth : Nat) :
    isGap c = false ∧ lexemeAt depth c rest = (.redirect sign, after) := by
  have hc : c = '<' ∨ c = '>' ∨ ∃ d : Fin 10, c = Nat.digitChar d := by
    unfold redirectAt? at h
    split at h
    · rename_i hlt
      exact .inl (beq_iff_eq.mp hlt)
    · split at h
      · rename_i hgt
        exact .inr (.inl (beq_iff_eq.mp hgt))
      · split at h
        · rename_i d hdigit
          exact .inr (.inr ⟨d, digit?_eq_some_iff.mp hdigit⟩)
        · cases h
  have hne : isGap c = false ∧ c ≠ '\n' ∧ c ≠ '&' ∧ c ≠ '|' ∧ c ≠ '(' ∧ c ≠ ')' := by
    have hdigit : ∀ d : Fin 10, isGap (Nat.digitChar d) = false ∧ Nat.digitChar d ≠ '\n' ∧
        Nat.digitChar d ≠ '&' ∧ Nat.digitChar d ≠ '|' ∧ Nat.digitChar d ≠ '(' ∧ Nat.digitChar d ≠ ')' := by
      decide
    obtain rfl | rfl | ⟨d, rfl⟩ := hc
    · decide
    · decide
    · exact hdigit d
  obtain ⟨hgap, hfeed, hamp, hbar, hopenParen, hcloseParen⟩ := hne
  exact ⟨hgap, by simp [lexemeAt, hfeed, hamp, hbar, hopenParen, hcloseParen, h]⟩

/-- What follows a lexeme that stands by itself: nothing, or a blank. -/
def Apart (rest : List Char) : Prop := rest = [] ∨ ∃ more, rest = ' ' :: more

theorem Apart.head?_ne {rest : List Char} (h : Apart rest) {c : Char} (hc : c ≠ ' ') :
    (rest.head? == some c) = false := by
  obtain rfl | ⟨more, rfl⟩ := h
  · rfl
  · simpa using hc.symm

theorem scanRedirect_of_text {sign : RedirectSign} (h : sign.Coherent) {rest : List Char} (hrest : Apart rest) :
    ∃ size, scanRedirect sign.handle (sign.op.signHead == '>') (sign.op.signTail sign.copyOf ++ rest) =
      (sign, size, rest) := by
  obtain ⟨handle, op, copyOf⟩ := sign
  have hmore : (rest.head? == some '>') = false := hrest.head?_ne (by decide)
  have hamp : (rest.head? == some '&') = false := hrest.head?_ne (by decide)
  cases copyOf with
  | none =>
    cases op with
    | append => exact ⟨1, rfl⟩
    | input =>
      exact ⟨0, by simp [scanRedirect, RedirectOp.signTail, RedirectOp.signHead, hamp, RedirectOp.ofSign]⟩
    | output =>
      exact ⟨0, by simp [scanRedirect, RedirectOp.signTail, RedirectOp.signHead, hmore, hamp, RedirectOp.ofSign]⟩
  | some d =>
    cases op with
    | append => cases h rfl
    | input => exact ⟨2, by simp [scanRedirect, RedirectOp.signTail, RedirectOp.signHead, RedirectOp.ofSign]⟩
    | output => exact ⟨2, by simp [scanRedirect, RedirectOp.signTail, RedirectOp.signHead, RedirectOp.ofSign]⟩

/-- The text of a sign is read as the sign. -/
theorem redirectAt?_of_text {sign : RedirectSign} (h : sign.Coherent) {rest : List Char} (hrest : Apart rest) :
    ∃ c tail size, sign.text.toList = c :: tail ∧ redirectAt? c (tail ++ rest) = some (sign, size, rest) := by
  obtain ⟨size, hscan⟩ := scanRedirect_of_text h hrest
  rw [RedirectSign.toList_text h]
  have hhead : sign.op.signHead = '<' ∨ sign.op.signHead = '>' := by
    cases sign.op <;> simp [RedirectOp.signHead]
  cases hhandle : sign.handle with
  | none =>
    refine ⟨_, _, 1 + size, rfl, ?_⟩
    rw [hhandle] at hscan
    obtain hlt | hgt := hhead
    · rw [hlt] at hscan ⊢
      simp only [redirectAt?, beq_self_eq_true, if_true]
      exact congrArg (fun r => some (r.1, 1 + r.2.1, r.2.2)) hscan
    · rw [hgt] at hscan ⊢
      exact congrArg (fun r => some (r.1, 1 + r.2.1, r.2.2)) hscan
  | some d =>
    refine ⟨_, _, 2 + size, rfl, ?_⟩
    rw [hhandle] at hscan
    have hdigit : ∀ d : Fin 10, (Nat.digitChar d == '<') = false ∧ (Nat.digitChar d == '>') = false := by decide
    simp only [redirectAt?, hdigit d, Bool.false_eq_true, if_false, digit?_digitChar]
    obtain hlt | hgt := hhead
    · rw [hlt] at hscan ⊢
      exact congrArg (fun r => some (r.1, 2 + r.2.1, r.2.2)) hscan
    · rw [hgt] at hscan ⊢
      exact congrArg (fun r => some (r.1, 2 + r.2.1, r.2.2)) hscan

end BatchShell
