import BatchShell.Except
import BatchShell.Parser.Line

/-!
# What the readers do

The readers of the parser carry the fact that they leave a shorter list along. `bare` forgets it, and the
equations here say what each reader does in terms of the readers that it uses. Nothing after this module
unfolds a reader.

* `word?_cons`: an argument is a word with all the words glued to it.
* `simpleFrom_cons`, `redirectionsFrom_redirect`: one token of a simple command, one redirection.
* `pipelineFrom_cons`, `chainFrom_cons`, `sequenceFrom_eq`, `block_eq`: one step of each reader of the
  sequence grammar.
-/
namespace BatchShell.Parser

/-- What was read and what is left, or the error. -/
def bare {α : Type} {p : List Token → Prop} (r : Reading (α × { rest : List Token // p rest })) :
    Reading (α × List Token) :=
  r.map fun x => (x.1, x.2.val)

section

variable {α : Type} {p : List Token → Prop} {r : Reading (α × { rest : List Token // p rest })}

@[simp] theorem bare_ok (a : α) (rest : { rest : List Token // p rest }) :
    bare (.ok (a, rest)) = .ok (a, rest.val) := rfl

theorem bare_eq_ok {a : α} {rest : List Token} :
    bare r = .ok (a, rest) ↔ ∃ h : p rest, r = .ok (a, ⟨rest, h⟩) := by
  constructor
  · intro h
    obtain e | ⟨a', rest', h'⟩ := r
    · cases h
    · cases h
      exact ⟨h', rfl⟩
  · rintro ⟨_, rfl⟩
    rfl

theorem of_bare {a : α} {rest : List Token} (h : bare r = .ok (a, rest)) : p rest :=
  (bare_eq_ok.mp h).1

theorem bare_eq_error {e : FormError} : bare r = .error e ↔ r = .error e := by
  constructor
  · intro h
    obtain e' | _ := r
    · cases h
      rfl
    · cases h
  · rintro rfl
    rfl

end

/-! ## Words -/

/-- A word that goes on the word before it. -/
def isGlued (t : Token) : Bool := t.isWord && t.leading.isEmpty

theorem glued_rest (ts : List Token) : (glued ts).2.val = ts.dropWhile isGlued := by
  induction ts with
  | nil => rfl
  | cons t ts ih =>
    unfold glued
    obtain ⟨lexeme, start, stop, leading⟩ := t
    cases lexeme with
    | word text quoted =>
      by_cases h : leading.isEmpty = true
      · simp [h, ih, List.dropWhile, isGlued, Token.isWord]
      · simp [h, List.dropWhile, isGlued, Token.isWord]
    | operator op => rfl
    | redirect sign => rfl

theorem glued_text (ts : List Token) :
    (glued ts).1 = ((ts.takeWhile isGlued).map Token.text).foldr (· ++ ·) "" := by
  induction ts with
  | nil => rfl
  | cons t ts ih =>
    unfold glued
    obtain ⟨lexeme, start, stop, leading⟩ := t
    cases lexeme with
    | word text quoted =>
      by_cases h : leading.isEmpty = true
      · simp [h, ih, List.takeWhile, isGlued, Token.isWord, Token.text, Lexeme.text]
      · simp [h, List.takeWhile, isGlued, Token.isWord]
    | operator op => rfl
    | redirect sign => rfl

/-- No word is glued to what stands before these tokens. -/
def Unglued (ts : List Token) : Prop := ∀ t us, ts = t :: us → isGlued t = false

/-- What is glued to a word does not depend on tokens that are not. -/
theorem glued_append {rest : List Token} (h : Unglued rest) (ts : List Token) :
    (glued (ts ++ rest)).1 = (glued ts).1 ∧
      (ts ++ rest).dropWhile isGlued = ts.dropWhile isGlued ++ rest := by
  have hrest : rest.takeWhile isGlued = [] ∧ rest.dropWhile isGlued = rest := by
    cases rest with
    | nil => exact ⟨rfl, rfl⟩
    | cons t us => simp [h t us rfl]
  have hboth : (ts ++ rest).takeWhile isGlued = ts.takeWhile isGlued ∧
      (ts ++ rest).dropWhile isGlued = ts.dropWhile isGlued ++ rest := by
    induction ts with
    | nil => exact hrest
    | cons t ts ih =>
      rw [List.cons_append, List.takeWhile_cons, List.takeWhile_cons, List.dropWhile_cons, List.dropWhile_cons]
      split
      · exact ⟨by rw [ih.1], ih.2⟩
      · exact ⟨rfl, rfl⟩
  rw [glued_text, glued_text, hboth.1]
  exact ⟨rfl, hboth.2⟩

/-- An argument is a word with all the words glued to it. -/
theorem word?_cons {t : Token} (h : t.isWord = true) (ts : List Token) :
    ∃ hlt, word? (t :: ts) =
      some (⟨t.text ++ (glued ts).1, t.start⟩, ⟨ts.dropWhile isGlued, hlt⟩) := by
  obtain ⟨lexeme, start, stop, leading⟩ := t
  cases lexeme with
  | word text quoted =>
    refine ⟨Nat.lt_succ_of_le (List.dropWhile_suffix _).length_le, ?_⟩
    simp only [word?, glued_rest]
    rfl
  | operator op => cases h
  | redirect sign => cases h

theorem word?_of_not_word {t : Token} (h : t.isWord = false) (ts : List Token) : word? (t :: ts) = none := by
  obtain ⟨lexeme, start, stop, leading⟩ := t
  cases lexeme with
  | word text quoted => cases h
  | operator op => rfl
  | redirect sign => rfl

/-- What the next argument leaves. -/
theorem word?_eq_some {ts : List Token} {w : Word} {rest : Shorter ts} (h : word? ts = some (w, rest)) :
    ∃ t us, ts = t :: us ∧ t.isWord = true ∧ w = ⟨t.text ++ (glued us).1, t.start⟩ ∧
      rest.val = us.dropWhile isGlued := by
  cases ts with
  | nil => cases h
  | cons t us =>
    cases hword : t.isWord with
    | false => cases (word?_of_not_word hword us).symm.trans h
    | true =>
      obtain ⟨hlt, heq⟩ := word?_cons hword us
      cases heq.symm.trans h
      exact ⟨t, us, rfl, hword, rfl, rfl⟩

/-- The next argument in upper case and without at-signs, as it is compared with `IF`, `FOR` and `REM`. -/
def keywordAt (ts : List Token) : Option String :=
  (peekWord? ts).map fun w => (String.ofList (w.toList.dropWhile (· == '@'))).map Char.toUpper

/-- Do the tokens start with one of the words that start a form of their own? -/
def StartsForm (ts : List Token) : Prop :=
  keywordAt ts = some "IF" ∨ keywordAt ts = some "FOR" ∨ keywordAt ts = some "REM"

instance (ts : List Token) : Decidable (StartsForm ts) :=
  inferInstanceAs (Decidable (_ ∨ _ ∨ _))

theorem isWord_of_keywordAt {t : Token} {ts : List Token} {w : String} (h : keywordAt (t :: ts) = some w) :
    t.isWord = true := by
  cases hword : t.isWord with
  | true => rfl
  | false =>
    rw [keywordAt, peekWord?, word?_of_not_word hword] at h
    cases h

/-! ## Redirections -/

/-- The stream that a sign redirects. -/
def streamOf (sign : RedirectSign) : Nat :=
  match sign.handle with
  | some d => d.val
  | none => if sign.op == .input then 0 else 1

theorem redirectTarget_copy {sign : RedirectSign} {d : Fin 10} (h : sign.copyOf = some d) (t : Token)
    (ts : List Token) :
    bare (redirectTarget t sign ts) = .ok (⟨streamOf sign, sign.op, .handle d.val⟩, ts) := by
  simp only [redirectTarget, h]
  rfl

theorem redirectTarget_file {sign : RedirectSign} (h : sign.copyOf = none) (t : Token) {u : Token}
    (hword : u.isWord = true) (us : List Token) :
    bare (redirectTarget t sign (u :: us)) =
      .ok (⟨streamOf sign, sign.op, .file (u.text ++ (glued us).1)⟩, us.dropWhile isGlued) := by
  obtain ⟨hlt, hw⟩ := word?_cons hword us
  simp only [redirectTarget, h, hw]
  rfl

theorem redirectTarget_none {sign : RedirectSign} (h : sign.copyOf = none) (t : Token) {ts : List Token}
    (hword : ∀ u us, ts = u :: us → u.isWord = false) :
    bare (redirectTarget t sign ts) = .error ⟨.unexpected t.text, t.start⟩ := by
  have hw : word? ts = none := by
    cases ts with
    | nil => rfl
    | cons u us => exact word?_of_not_word (hword u us rfl) us
  simp only [redirectTarget, h, hw]
  rfl

/-- The three ways in which the target of a redirection is read. -/
theorem redirectTarget_cases (t : Token) (sign : RedirectSign) (ts : List Token) :
    (∃ d, sign.copyOf = some d ∧
      bare (redirectTarget t sign ts) = .ok (⟨streamOf sign, sign.op, .handle d.val⟩, ts)) ∨
    (sign.copyOf = none ∧ ∃ u us, ts = u :: us ∧ u.isWord = true ∧ bare (redirectTarget t sign ts) =
      .ok (⟨streamOf sign, sign.op, .file (u.text ++ (glued us).1)⟩, us.dropWhile isGlued)) ∨
    (sign.copyOf = none ∧ (∀ u us, ts = u :: us → u.isWord = false) ∧
      bare (redirectTarget t sign ts) = .error ⟨.unexpected t.text, t.start⟩) := by
  cases hcopy : sign.copyOf with
  | some d => exact .inl ⟨d, rfl, redirectTarget_copy hcopy t ts⟩
  | none =>
    by_cases hword : ∃ u us, ts = u :: us ∧ u.isWord = true
    · obtain ⟨u, us, rfl, hu⟩ := hword
      exact .inr (.inl ⟨rfl, u, us, rfl, hu, redirectTarget_file hcopy t hu us⟩)
    · have hnone : ∀ u us, ts = u :: us → u.isWord = false := by
        intro u us hts
        exact Bool.eq_false_iff.mpr fun hu => hword ⟨u, us, hts, hu⟩
      exact .inr (.inr ⟨rfl, hnone, redirectTarget_none hcopy t hnone⟩)

@[simp] theorem redirectionsFrom_nil : bare (redirectionsFrom []) = .ok ([], []) := by
  rw [redirectionsFrom]
  rfl

theorem redirectionsFrom_redirect {t : Token} {sign : RedirectSign} (h : t.lexeme = .redirect sign)
    (ts : List Token) :
    bare (redirectionsFrom (t :: ts)) = (do
      let (first, rest) ← bare (redirectTarget t sign ts)
      let (more, after) ← bare (redirectionsFrom rest)
      .ok (first :: more, after)) := by
  obtain ⟨lexeme, start, stop, leading⟩ := t
  cases h
  rw [redirectionsFrom]
  dsimp only
  obtain e | ⟨first, rest⟩ := redirectTarget ⟨.redirect sign, start, stop, leading⟩ sign ts
  · rfl
  · simp only [Except.bind_ok, bare_ok]
    obtain e | ⟨more, after⟩ := redirectionsFrom rest.val <;> rfl

theorem redirectionsFrom_stop {t : Token} (h : ∀ sign, t.lexeme ≠ .redirect sign) (ts : List Token) :
    bare (redirectionsFrom (t :: ts)) = .ok ([], t :: ts) := by
  obtain ⟨lexeme, start, stop, leading⟩ := t
  rw [redirectionsFrom]
  cases lexeme with
  | redirect sign => cases h sign rfl
  | word text quoted => rfl
  | operator op => rfl

/-! ## Simple commands -/

namespace SimpleScan

/-- Take a redirection; it ends the word before it. -/
def addRedirection (s : SimpleScan) (r : Redirection) : SimpleScan :=
  { s.closeWord with redirections := r :: s.closeWord.redirections }

/-- Take an opening parenthesis that is text. -/
def openLiteral (s : SimpleScan) (leading : String) : SimpleScan :=
  { s.addText leading "(" with parens := s.parens + 1 }

/-- Take the closing parenthesis of one that is text. -/
def closeLiteral (s : SimpleScan) (leading : String) : SimpleScan :=
  { s.addText leading ")" with parens := s.parens - 1 }

end SimpleScan

@[simp] theorem simpleFrom_nil (s : SimpleScan) : bare (simpleFrom s []) = .ok (s.finish, []) := by
  rw [simpleFrom]
  rfl

/-- Placing what a simple command leaves among the tokens it is part of changes nothing that was read. -/
theorem simpleFrom_place {ts us : List Token} (s : SimpleScan) (rest : NotLonger ts)
    (hlonger : ts.length ≤ us.length) :
    bare (do
      let (command, after) ← simpleFrom s rest.val
      Except.ok (command,
        (⟨after.val, Nat.le_trans after.property (Nat.le_trans rest.property hlonger)⟩ : NotLonger us))) =
      bare (simpleFrom s rest.val) := by
  obtain e | ⟨c, after⟩ := simpleFrom s rest.val <;> rfl

/-- One token of a simple command. -/
theorem simpleFrom_cons (s : SimpleScan) (t : Token) (ts : List Token) :
    bare (simpleFrom s (t :: ts)) =
      match t.lexeme with
      | .word text _ => bare (simpleFrom (s.addText t.leading text) ts)
      | .redirect sign => do
        let (r, rest) ← bare (redirectTarget t sign ts)
        bare (simpleFrom (s.addRedirection r) rest)
      | .operator .openParen => bare (simpleFrom (s.openLiteral t.leading) ts)
      | .operator .closeParen =>
        if 0 < s.parens then bare (simpleFrom (s.closeLiteral t.leading) ts) else .ok (s.finish, t :: ts)
      | .operator _ => .ok (s.finish, t :: ts) := by
  obtain ⟨lexeme, start, stop, leading⟩ := t
  rw [simpleFrom]
  cases lexeme with
  | word text quoted => exact simpleFrom_place _ (.all ts) (Nat.le_succ _)
  | redirect sign =>
    simp only [SimpleScan.step]
    obtain e | ⟨r, rest⟩ := redirectTarget ⟨.redirect sign, start, stop, leading⟩ sign ts
    · rfl
    · exact simpleFrom_place _ rest (Nat.le_succ _)
  | operator op =>
    cases op with
    | openParen => exact simpleFrom_place _ (.all ts) (Nat.le_succ _)
    | closeParen =>
      simp only [SimpleScan.step]
      split
      · exact simpleFrom_place _ (.all ts) (Nat.le_succ _)
      · rfl
    | _ => rfl

/-- A simple command that starts with a word or a redirection. -/
theorem simple_eq_simpleFrom {t : Token} (h : t.isOperator = false) (ts : List Token) :
    bare (simple t ts) = bare (simpleFrom .start (t :: ts)) := by
  rw [simpleFrom_cons]
  obtain ⟨lexeme, start, stop, leading⟩ := t
  cases lexeme with
  | word text quoted => exact simpleFrom_place _ (.all ts) (Nat.le_refl _)
  | redirect sign =>
    simp only [simple, SimpleScan.step]
    obtain e | ⟨r, rest⟩ := redirectTarget ⟨.redirect sign, start, stop, leading⟩ sign ts
    · rfl
    · exact simpleFrom_place _ rest (Nat.le_refl _)
  | operator op => cases h

/-! ## Pipelines, chains and sequences -/

section

variable (command : CommandReader) (inBlock : Bool)

@[simp] theorem pipelineFrom_nil (left : Command) :
    bare (pipelineFrom command inBlock left []) = .ok (left, []) := by
  rw [pipelineFrom]
  rfl

theorem pipelineFrom_cons (left : Command) (t : Token) (ts : List Token) :
    bare (pipelineFrom command inBlock left (t :: ts)) =
      if t.isOp .pipe then do
        expectOperand .pipe t.stop ts
        let (right, rest) ← bare (command inBlock ts)
        bare (pipelineFrom command inBlock (.pipe left right) rest)
      else .ok (left, t :: ts) := by
  rw [pipelineFrom]
  split
  · obtain e | _ := expectOperand .pipe t.stop ts
    · rfl
    · obtain e | ⟨right, rest⟩ := command inBlock ts
      · rfl
      · simp only [Except.bind_ok, bare_ok]
        obtain e | ⟨whole, after⟩ := pipelineFrom command inBlock (.pipe left right) rest.val <;> rfl
  · rfl

theorem pipeline_eq (ts : List Token) :
    bare (pipeline command inBlock ts) = (do
      let (left, rest) ← bare (command inBlock ts)
      bare (pipelineFrom command inBlock left rest)) := by
  unfold pipeline
  obtain e | ⟨left, rest⟩ := command inBlock ts
  · rfl
  · simp only [Except.bind_ok, bare_ok]
    obtain e | ⟨whole, after⟩ := pipelineFrom command inBlock left rest.val <;> rfl

/-- The operator that joins two pipelines. -/
def linkOf (t : Token) : Operator := if t.isOp .andThen then .andThen else .orElse

/-- Two pipelines joined by `t`. -/
def joinLink (t : Token) (left right : Command) : Command :=
  if t.isOp .andThen then .andThen left right else .orElse left right

@[simp] theorem chainFrom_nil (left : Command) :
    bare (chainFrom command inBlock left []) = .ok (left, []) := by
  rw [chainFrom]
  rfl

theorem chainFrom_cons (left : Command) (t : Token) (ts : List Token) :
    bare (chainFrom command inBlock left (t :: ts)) =
      if t.isOp .andThen || t.isOp .orElse then do
        expectOperand (linkOf t) t.stop ts
        let (right, rest) ← bare (pipeline command inBlock ts)
        bare (chainFrom command inBlock (joinLink t left right) rest)
      else .ok (left, t :: ts) := by
  rw [chainFrom]
  split
  · change _ = (expectOperand (if t.isOp .andThen then .andThen else .orElse) t.stop ts >>= _)
    obtain e | _ := expectOperand (if t.isOp .andThen then .andThen else .orElse) t.stop ts
    · rfl
    · obtain e | ⟨right, rest⟩ := pipeline command inBlock ts
      · rfl
      · change bare (chainFrom command inBlock (joinLink t left right) rest.val >>= _) =
          bare (chainFrom command inBlock (joinLink t left right) rest.val)
        obtain e | ⟨whole, after⟩ := chainFrom command inBlock (joinLink t left right) rest.val <;> rfl
  · rfl

theorem chain_eq (ts : List Token) :
    bare (chain command inBlock ts) = (do
      let (left, rest) ← bare (pipeline command inBlock ts)
      bare (chainFrom command inBlock left rest)) := by
  unfold chain
  obtain e | ⟨left, rest⟩ := pipeline command inBlock ts
  · rfl
  · simp only [Except.bind_ok, bare_ok]
    obtain e | ⟨whole, after⟩ := chainFrom command inBlock left rest.val <;> rfl

theorem skipBreaks_eq (ts : List Token) : (skipBreaks ts).val = ts.dropWhile (·.isOp .lineBreak) := by
  induction ts with
  | nil => rfl
  | cons t ts ih =>
    unfold skipBreaks
    by_cases h : t.isOp .lineBreak = true
    · simp [h, ih, List.dropWhile]
    · simp [h, List.dropWhile]

/-- The tokens at which the next command of a sequence starts. -/
def itemStart (oneLine : Bool) (ts : List Token) : List Token :=
  if oneLine then ts else ts.dropWhile (·.isOp .lineBreak)

/-- Does a command end a sequence when `t` stands where the next one would start? -/
def endsSequence (oneLine : Bool) (t : Token) : Bool :=
  t.isOp .closeParen || (oneLine && t.isOp .lineBreak)

/-- Does `t` separate the commands of a sequence? -/
def separates (oneLine : Bool) (t : Token) : Bool := t.isOp .both || (t.isOp .lineBreak && !oneLine)

/-- What a sequence does after a command, of which all commands so far are `joined`. -/
def afterItem (oneLine : Bool) (joined : Command) : List Token → Reading (Option Command × List Token)
  | [] => .ok (some joined, [])
  | t :: ts =>
    if separates oneLine t then bare (sequenceFrom command inBlock oneLine (some joined) ts)
    else .ok (some joined, t :: ts)

/-- One command of a sequence. -/
theorem sequenceFrom_eq (oneLine : Bool) (prev : Option Command) (ts : List Token) :
    bare (sequenceFrom command inBlock oneLine prev ts) =
      match itemStart oneLine ts with
      | [] => .ok (prev, [])
      | t :: us =>
        if endsSequence oneLine t then .ok (prev, t :: us)
        else if t.isOperator && !t.isOp .openParen then .error ⟨.unexpected t.text, t.start⟩
        else (do
          let (item, rest) ← bare (chain command inBlock (t :: us))
          afterItem command inBlock oneLine (joinBoth prev item) rest) := by
  have hstart : (if oneLine then (⟨ts, Nat.le_refl _⟩ : NotLonger ts) else skipBreaks ts).val =
      itemStart oneLine ts := by
    cases oneLine
    · exact skipBreaks_eq ts
    · rfl
  rw [sequenceFrom]
  split
  · rename_i hnil
    rw [bare_ok, hnil, ← hstart, hnil]
  · rename_i t us hcons
    rw [hstart.symm.trans hcons]
    dsimp only
    change bare (if endsSequence oneLine t then _ else _) = _
    split
    · rw [bare_ok, hcons]
    · split
      · rfl
      · have hchain : bare (chain command inBlock (t :: us)) = bare (chain command inBlock
            (if oneLine then (⟨ts, Nat.le_refl _⟩ : NotLonger ts) else skipBreaks ts).val) := by
          rw [hcons]
        rw [hchain]
        obtain e | ⟨item, rest, hlt⟩ := chain command inBlock _
        · rfl
        · cases rest with
          | nil => rfl
          | cons u us =>
            simp only [Except.bind_ok, bare_ok, afterItem]
            by_cases hboth : u.isOp .both = true
            · have hsep : separates oneLine u = true := by simp [separates, hboth]
              rw [if_pos hboth, if_pos hsep]
              obtain e | ⟨whole, after⟩ :=
                sequenceFrom command inBlock oneLine (some (joinBoth prev item)) us <;> rfl
            · rw [if_neg hboth]
              by_cases hbreak : (u.isOp .lineBreak && !oneLine) = true
              · have hsep : separates oneLine u = true := by rw [separates, hbreak, Bool.or_true]
                rw [if_pos hbreak, if_pos hsep]
                obtain e | ⟨whole, after⟩ :=
                  sequenceFrom command inBlock oneLine (some (joinBoth prev item)) us <;> rfl
              · have hsep : ¬ separates oneLine u = true := by
                  rw [separates, Bool.eq_false_iff.mpr hboth, Bool.false_or]
                  exact hbreak
                rw [if_neg hbreak, if_neg hsep]
                rfl

/-- A block after its opening parenthesis. -/
theorem block_eq (opened : Nat) (ts : List Token) :
    bare (block command opened ts) = (do
      let (body, rest) ← bare (sequenceFrom command true false none ts)
      match rest with
      | [] => .error ⟨.unclosedParen, opened⟩
      | t :: us =>
        if t.isOp .closeParen then do
          let (redirections, after) ← bare (redirectionsFrom us)
          .ok (.block (body.getD (.simple .empty)) redirections, after)
        else .error ⟨.unclosedParen, opened⟩) := by
  unfold block sequence
  obtain e | ⟨body, rest, hle⟩ := sequenceFrom command true false none ts
  · rfl
  · cases rest with
    | nil => rfl
    | cons t us =>
      simp only [Except.bind_ok, bare_ok]
      cases t.isOp .closeParen
      · rfl
      · simp only [if_true]
        obtain e | ⟨rs, after⟩ := redirectionsFrom us <;> rfl

end

/-- A whole line. -/
theorem ofTokens?_eq (ts : List Token) :
    Command.ofTokens? ts = (do
      let (found, rest) ← bare (sequenceFrom (commandReader (lineEnd ts) maxDepth) false false none ts)
      match rest with
      | [] => .ok found
      | t :: _ => .error ⟨.unexpected t.text, t.start⟩) := by
  unfold Command.ofTokens? sequence
  obtain e | ⟨found, rest, hle⟩ := sequenceFrom (commandReader (lineEnd ts) maxDepth) false false none ts <;> rfl

end BatchShell.Parser
