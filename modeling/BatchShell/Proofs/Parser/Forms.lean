import BatchShell.Proofs.Parser.Readers

/-!
# Conditions, loops and remarks as they are read

What a condition or loop that was read, or not read, is made of. A head is made of words, and of the set of a
loop, which closes as many parentheses as it opens (`Passes`); an error of a head complains of a parenthesis
only where a set has no end (`loopHead_error`).

* `branch_ok`, `conditional_ok`, `loop_ok`, `remark_rest`: what was read.
* `branch_error`, `conditional_error`, `loop_error`: where an error comes from.
* `commandWith_block` and the lemmas after it: which form a command has.
-/
namespace BatchShell.Parser

/-! ## Parentheses -/

/-- How many parentheses a token opens. -/
def tokenRise (t : Token) : Int :=
  if t.isOp .openParen then 1 else if t.isOp .closeParen then -1 else 0

/-- How many more parentheses are opened than closed. -/
def rise : List Token → Int
  | [] => 0
  | t :: ts => tokenRise t + rise ts

@[simp] theorem rise_nil : rise [] = 0 := rfl

@[simp] theorem rise_cons (t : Token) (ts : List Token) : rise (t :: ts) = tokenRise t + rise ts := rfl

@[simp] theorem rise_append (us ts : List Token) : rise (us ++ ts) = rise us + rise ts := by
  induction us with
  | nil => rw [List.nil_append, rise_nil, Int.zero_add]
  | cons t us ih => rw [List.cons_append, rise_cons, rise_cons, ih, Int.add_assoc]

theorem tokenRise_of_not_operator {t : Token} (h : t.isOperator = false) : tokenRise t = 0 := by
  obtain ⟨lexeme, start, stop, leading⟩ := t
  cases lexeme with
  | operator op => cases h
  | word text quoted => rfl
  | redirect sign => rfl

theorem tokenRise_open {t : Token} (h : t.isOp .openParen = true) : tokenRise t = 1 := if_pos h

theorem tokenRise_other {t : Token} (hopen : ¬ t.isOp .openParen = true)
    (hclose : ¬ t.isOp .closeParen = true) : tokenRise t = 0 := by
  rw [tokenRise, if_neg hopen, if_neg hclose]

theorem tokenRise_close {t : Token} (h : t.isOp .closeParen = true) : tokenRise t = -1 := by
  have hopen : ¬ t.isOp .openParen = true := by
    intro hopen
    rw [Token.isOp, beq_iff_eq] at h hopen
    cases h.symm.trans hopen
  rw [tokenRise, if_neg hopen, if_pos h]

/-- The tokens up to `rest` open as many parentheses as they close. -/
def Passes (ts rest : List Token) : Prop := ∃ run, ts = run ++ rest ∧ rise run = 0

namespace Passes

variable {ts us rest : List Token}

theorem refl (ts : List Token) : Passes ts ts := ⟨[], rfl, rfl⟩

theorem trans (h : Passes ts us) (h' : Passes us rest) : Passes ts rest := by
  obtain ⟨run, rfl, hrun⟩ := h
  obtain ⟨run', rfl, hrun'⟩ := h'
  exact ⟨run ++ run', by simp, by simp [hrun, hrun']⟩

theorem suffix (h : Passes ts rest) : rest <:+ ts := by
  obtain ⟨run, rfl, -⟩ := h
  exact List.suffix_append run rest

theorem rise_eq (h : Passes ts rest) : rise ts = rise rest := by
  obtain ⟨run, rfl, hrun⟩ := h
  rw [rise_append, hrun, Int.zero_add]

end Passes

theorem isOperator_of_isWord {t : Token} (h : t.isWord = true) : t.isOperator = false := by
  obtain ⟨lexeme, start, stop, leading⟩ := t
  cases lexeme with
  | word text quoted => rfl
  | operator op => cases h
  | redirect sign => cases h

theorem rise_takeWhile_isGlued (ts : List Token) : rise (ts.takeWhile isGlued) = 0 := by
  induction ts with
  | nil => rfl
  | cons t ts ih =>
    rw [List.takeWhile_cons]
    split
    · rename_i hglued
      have hword : t.isWord = true := (Bool.and_eq_true_iff.mp hglued).1
      rw [rise_cons, ih, tokenRise_of_not_operator (isOperator_of_isWord hword), Int.add_zero]
    · rfl

/-- Words glued together are passed. -/
theorem passes_dropWhile_isGlued (ts : List Token) : Passes ts (ts.dropWhile isGlued) :=
  ⟨ts.takeWhile isGlued, List.takeWhile_append_dropWhile.symm, rise_takeWhile_isGlued ts⟩

theorem passes_cons {t : Token} (h : t.isOperator = false) {ts rest : List Token} (hts : Passes ts rest) :
    Passes (t :: ts) rest := by
  obtain ⟨run, rfl, hrun⟩ := hts
  exact ⟨t :: run, rfl, by rw [rise_cons, hrun, tokenRise_of_not_operator h, Int.add_zero]⟩

theorem passes_word? {ts : List Token} {w : Word} {rest : Shorter ts} (h : word? ts = some (w, rest)) :
    Passes ts rest.val := by
  obtain ⟨t, us, rfl, hword, -, hrest⟩ := word?_eq_some h
  rw [hrest]
  exact passes_cons (isOperator_of_isWord hword) (passes_dropWhile_isGlued us)

/-! ## Heads -/

section

variable {lineEnd : Nat} {ts : List Token}

theorem expectWord_ok {what : Expected} {w : Word} {rest : Shorter ts}
    (h : expectWord lineEnd what ts = .ok (w, rest)) : word? ts = some (w, rest) := by
  unfold expectWord at h
  split at h
  · rename_i hword
    cases h
    exact hword
  · cases h

theorem expectWord_error {what : Expected} {e : FormError} (h : expectWord lineEnd what ts = .error e) :
    e.fault = .expected what := by
  unfold expectWord at h
  split at h
  · cases h
  · cases h
    rfl

/-- The error of a reader does not complain of a parenthesis. -/
def NoParen {α : Type} (r : Reading α) : Prop := ∀ e, r = .error e → e.fault ≠ .unclosedParen

theorem NoParen.ok {α : Type} (a : α) : NoParen (.ok a) := by
  intro e h
  cases h

theorem NoParen.error {α : Type} {e : FormError} (h : e.fault ≠ .unclosedParen) :
    NoParen (.error e : Reading α) := by
  intro e' h'
  cases h'
  exact h

theorem NoParen.bind {α β : Type} {x : Reading α} {f : α → Reading β} (hx : NoParen x)
    (hf : ∀ a, x = .ok a → NoParen (f a)) : NoParen (x >>= f) := by
  intro e h
  obtain h | ⟨a, ha, h⟩ := Except.bind_eq_error_iff.mp h
  · exact hx e h
  · exact hf a ha e h

theorem noParen_expectWord (lineEnd : Nat) (what : Expected) (ts : List Token) :
    NoParen (expectWord lineEnd what ts) := by
  intro e h
  rw [expectWord_error h]
  simp

theorem rightOperand_ok {tail : List Char} {right : String} {rest : NotLonger ts}
    (h : rightOperand lineEnd tail ts = .ok (right, rest)) : Passes ts rest.val := by
  unfold rightOperand at h
  split at h
  · obtain ⟨⟨w, after⟩, hw, h⟩ := Except.bind_eq_ok_iff.mp h
    cases h
    exact passes_word? (expectWord_ok hw)
  · cases h
    exact .refl ts

theorem noParen_rightOperand (lineEnd : Nat) (tail : List Char) (ts : List Token) :
    NoParen (rightOperand lineEnd tail ts) := by
  unfold rightOperand
  split
  · exact NoParen.bind (noParen_expectWord _ _ _) fun _ _ => .ok _
  · exact .ok _

theorem comparison_ok {test : Test} {rest : Shorter ts} (h : comparison lineEnd ts = .ok (test, rest)) :
    Passes ts rest.val := by
  unfold comparison at h
  obtain ⟨⟨first, rest1⟩, hfirst, h⟩ := Except.bind_eq_ok_iff.mp h
  refine (passes_word? (expectWord_ok hfirst)).trans ?_
  dsimp only at h
  split at h
  · obtain ⟨⟨right, after⟩, hright, h⟩ := Except.bind_eq_ok_iff.mp h
    cases h
    exact rightOperand_ok hright
  · obtain ⟨⟨second, rest2⟩, hsecond, h⟩ := Except.bind_eq_ok_iff.mp h
    refine (passes_word? (expectWord_ok hsecond)).trans ?_
    dsimp only at h
    split at h
    · obtain ⟨⟨right, after⟩, hright, h⟩ := Except.bind_eq_ok_iff.mp h
      cases h
      exact rightOperand_ok hright
    · split at h
      · obtain ⟨⟨right, after⟩, hright, h⟩ := Except.bind_eq_ok_iff.mp h
        cases h
        exact passes_word? (expectWord_ok hright)
      · cases h

theorem noParen_comparison (lineEnd : Nat) (ts : List Token) : NoParen (comparison lineEnd ts) := by
  unfold comparison
  refine NoParen.bind (noParen_expectWord _ _ _) fun first _ => ?_
  dsimp only
  split
  · exact NoParen.bind (noParen_rightOperand _ _ _) fun _ _ => .ok _
  · refine NoParen.bind (noParen_expectWord _ _ _) fun second _ => ?_
    split
    · exact NoParen.bind (noParen_rightOperand _ _ _) fun _ _ => .ok _
    · split
      · exact NoParen.bind (noParen_expectWord _ _ _) fun _ _ => .ok _
      · exact .error (by simp)

theorem conditionFlags_passes (negated ignoreCase : Bool) (ts : List Token) :
    Passes ts (conditionFlags negated ignoreCase ts).2.2.val := by
  fun_induction conditionFlags negated ignoreCase ts with
  | case1 _ ts => exact .refl ts
  | case2 _ _ ts _ rest hword _ _ _ _ after hmore ih =>
    rw [hmore] at ih
    exact (passes_word? hword).trans ih
  | case3 _ ts => exact .refl ts
  | case4 _ _ ts _ rest hword _ _ _ _ after hmore ih =>
    rw [hmore] at ih
    exact (passes_word? hword).trans ih
  | case5 _ _ ts => exact .refl ts

theorem keywordTest_ok {what : Expected} {make : String → Test} {test : Test} {rest : Shorter ts}
    (h : keywordTest lineEnd what make ts = .ok (test, rest)) : Passes ts rest.val := by
  unfold keywordTest at h
  split at h
  · cases h
  · rename_i rest1 hword
    obtain ⟨⟨w, after⟩, hw, h⟩ := Except.bind_eq_ok_iff.mp h
    cases h
    exact (passes_word? hword).trans (passes_word? (expectWord_ok hw))

theorem noParen_keywordTest (lineEnd : Nat) (what : Expected) (make : String → Test) (ts : List Token) :
    NoParen (keywordTest lineEnd what make ts) := by
  unfold keywordTest
  split
  · exact .error (by simp)
  · exact NoParen.bind (noParen_expectWord _ _ _) fun _ _ => .ok _

theorem condition_ok {c : Condition} {rest : Shorter ts} (h : condition lineEnd ts = .ok (c, rest)) :
    Passes ts rest.val := by
  unfold condition at h
  obtain ⟨⟨asked, after⟩, hasked, h⟩ := Except.bind_eq_ok_iff.mp h
  cases h
  refine (conditionFlags_passes false false ts).trans ?_
  unfold test at hasked
  split at hasked
  · exact keywordTest_ok hasked
  · exact keywordTest_ok hasked
  · exact keywordTest_ok hasked
  · exact comparison_ok hasked

theorem noParen_condition (lineEnd : Nat) (ts : List Token) : NoParen (condition lineEnd ts) := by
  unfold condition
  refine NoParen.bind ?_ fun _ _ => .ok _
  unfold test
  split
  · exact noParen_keywordTest _ _ _ _
  · exact noParen_keywordTest _ _ _ _
  · exact noParen_keywordTest _ _ _ _
  · exact noParen_comparison _ _

theorem loopKind_passes (kind : LoopKind) (ts : List Token) : Passes ts (loopKind kind ts).2.val := by
  have hroot : ∀ us : List Token, Passes us (recursionRoot us).2.val := by
    intro us
    unfold recursionRoot
    split
    · rename_i hword
      split
      · exact .refl us
      · exact passes_word? hword
    · exact .refl us
  have hoptions : ∀ us : List Token, Passes us (lineOptionText us).2.val := by
    intro us
    cases us with
    | nil => exact .refl []
    | cons t us =>
      unfold lineOptionText
      obtain ⟨lexeme, start, stop, leading⟩ := t
      cases lexeme with
      | word text quoted =>
        cases quoted
        · exact .refl _
        · exact passes_cons rfl (.refl us)
      | operator op => exact .refl _
      | redirect sign => exact .refl _
  fun_induction loopKind kind ts with
  | case1 _ ts _ rest hword _ _ after hmore ih =>
    rw [hmore] at ih
    exact (passes_word? hword).trans ih
  | case2 _ ts _ rest hword _ _ after hmore ih =>
    rw [hmore] at ih
    exact (passes_word? hword).trans ih
  | case3 _ ts _ rest hword _ root rest2 hrest2 _ after hmore ih =>
    rw [hmore] at ih
    refine (passes_word? hword).trans (Passes.trans ?_ ih)
    have h := hroot rest.val
    rwa [hrest2] at h
  | case4 _ ts _ rest hword _ options rest2 hrest2 _ after hmore ih =>
    rw [hmore] at ih
    refine (passes_word? hword).trans (Passes.trans ?_ ih)
    have h := hoptions rest.val
    rwa [hrest2] at h
  | case5 _ ts => exact .refl ts

/-- The text of a set ends behind the parenthesis that closes it. -/
theorem setText_some {nested : Nat} {raw text : String} {ts : List Token} {rest : Shorter ts}
    (h : setText nested raw ts = some (text, rest)) :
    ∃ run, ts = run ++ rest.val ∧ rise run = -(nested + 1) := by
  induction ts generalizing nested raw with
  | nil => cases h
  | cons t ts ih =>
    rw [setText] at h
    have hwiden : ∀ {nested : Nat} {raw : String}, ((setText nested raw ts).map fun found =>
          (found.1, (⟨found.2.val, Nat.lt_succ_of_lt found.2.property⟩ : Shorter (t :: ts)))) =
            some (text, rest) →
        ∃ run, t :: ts = run ++ rest.val ∧ rise run = tokenRise t - (nested + 1) := by
      intro nested raw h
      obtain ⟨⟨text', rest'⟩, h', heq⟩ := Option.map_eq_some_iff.mp h
      cases heq
      obtain ⟨run, hrun, hrise⟩ := ih h'
      exact ⟨t :: run, by rw [List.cons_append, ← hrun], by rw [rise_cons, hrise]; omega⟩
    split at h
    · rename_i hclose
      rw [tokenRise_close hclose] at hwiden
      split at h
      · rename_i hzero
        cases h
        exact ⟨[t], rfl, by rw [rise_cons, tokenRise_close hclose, hzero]; rfl⟩
      · obtain ⟨run, hrun, hrise⟩ := hwiden h
        exact ⟨run, hrun, by omega⟩
    · rename_i hclose
      split at h
      · rename_i hopen
        rw [tokenRise_open hopen] at hwiden
        obtain ⟨run, hrun, hrise⟩ := hwiden h
        exact ⟨run, hrun, by omega⟩
      · rename_i hopen
        rw [tokenRise_other hopen hclose] at hwiden
        split at h
        · obtain ⟨run, hrun, hrise⟩ := hwiden h
          exact ⟨run, hrun, by omega⟩
        · obtain ⟨run, hrun, hrise⟩ := hwiden h
          exact ⟨run, hrun, by omega⟩

/-- A set without an end leaves a parenthesis open. -/
theorem setText_none {nested : Nat} {raw : String} {ts : List Token} (h : setText nested raw ts = none) :
    0 ≤ nested + rise ts := by
  induction ts generalizing nested raw with
  | nil => simp
  | cons t ts ih =>
    rw [setText] at h
    have hwiden : ∀ {nested : Nat} {raw : String}, ((setText nested raw ts).map fun found =>
          (found.1, (⟨found.2.val, Nat.lt_succ_of_lt found.2.property⟩ : Shorter (t :: ts)))) = none →
        0 ≤ nested + rise ts := by
      intro nested raw h
      exact ih (Option.map_eq_none_iff.mp h)
    rw [rise_cons]
    split at h
    · rename_i hclose
      rw [tokenRise_close hclose]
      split at h
      · cases h
      · have := hwiden h
        omega
    · rename_i hclose
      split at h
      · rename_i hopen
        rw [tokenRise_open hopen]
        have := hwiden h
        omega
      · rename_i hopen
        rw [tokenRise_other hopen hclose]
        split at h
        · have := hwiden h
          omega
        · have := hwiden h
          omega

theorem expectKeyword_ok {what : Expected} {keyword : String} {rest : Shorter ts}
    (h : expectKeyword lineEnd what keyword ts = .ok rest) : Passes ts rest.val := by
  unfold expectKeyword at h
  obtain ⟨⟨w, after⟩, hw, h⟩ := Except.bind_eq_ok_iff.mp h
  dsimp only at h
  split at h
  · cases h
    exact passes_word? (expectWord_ok hw)
  · cases h

theorem noParen_expectKeyword (lineEnd : Nat) (what : Expected) (keyword : String) (ts : List Token) :
    NoParen (expectKeyword lineEnd what keyword ts) := by
  unfold expectKeyword
  refine NoParen.bind (noParen_expectWord _ _ _) fun w _ => ?_
  dsimp only
  split
  · exact .ok _
  · exact .error (by simp)

/-- What is read of the head of a loop: words, the set, and words again. -/
theorem loopHead_ok {head : LoopHead} {rest : Shorter ts} (h : loopHead lineEnd ts = .ok (head, rest)) :
    Passes ts rest.val := by
  unfold loopHead at h
  obtain ⟨⟨w, rest1⟩, hw, h⟩ := Except.bind_eq_ok_iff.mp h
  refine (passes_word? (expectWord_ok hw)).trans ((loopKind_passes .items rest1.val).trans ?_)
  dsimp only at h
  obtain ⟨⟨named, rest3⟩, hnamed, h⟩ := Except.bind_eq_ok_iff.mp h
  refine (passes_word? (expectWord_ok hnamed)).trans ?_
  dsimp only at h
  split at h
  · cases h
  · obtain ⟨rest4, hin, h⟩ := Except.bind_eq_ok_iff.mp h
    refine (expectKeyword_ok hin).trans ?_
    split at h
    · cases h
    · rename_i t us hrest4
      rw [hrest4]
      split at h
      · rename_i hopen
        split at h
        · cases h
        · rename_i raw rest5 hset
          obtain ⟨rest6, hdo, h⟩ := Except.bind_eq_ok_iff.mp h
          cases h
          obtain ⟨run, hrun, hrise⟩ := setText_some hset
          have hpass : Passes (t :: us) rest5.val :=
            ⟨t :: run, congrArg (t :: ·) hrun, by rw [rise_cons, tokenRise_open hopen, hrise]; rfl⟩
          exact hpass.trans (expectKeyword_ok hdo)
      · cases h

/-- The head of a loop complains of a parenthesis only where its set has no end. -/
theorem loopHead_error {e : FormError} (h : loopHead lineEnd ts = .error e) (he : e.fault = .unclosedParen) :
    ∃ us, us <:+ ts ∧ 0 < rise us := by
  unfold loopHead at h
  obtain h | ⟨⟨w, rest1⟩, hw, h⟩ := Except.bind_eq_error_iff.mp h
  · cases noParen_expectWord _ _ _ e h he
  have hpass1 := (passes_word? (expectWord_ok hw)).trans (loopKind_passes .items rest1.val)
  dsimp only at h
  obtain h | ⟨⟨named, rest3⟩, hnamed, h⟩ := Except.bind_eq_error_iff.mp h
  · cases noParen_expectWord _ _ _ e h he
  have hpass3 := hpass1.trans (passes_word? (expectWord_ok hnamed))
  dsimp only at h
  split at h
  · cases h
    cases he
  · obtain h | ⟨rest4, hin, h⟩ := Except.bind_eq_error_iff.mp h
    · cases noParen_expectKeyword _ _ _ _ e h he
    have hpass4 := hpass3.trans (expectKeyword_ok hin)
    split at h
    · cases h
      cases he
    · rename_i t us hrest4
      rw [hrest4] at hpass4
      split at h
      · rename_i hopen
        split at h
        · rename_i hset
          refine ⟨t :: us, hpass4.suffix, ?_⟩
          have := setText_none hset
          rw [rise_cons, tokenRise_open hopen]
          omega
        · obtain h | ⟨rest6, hdo, h⟩ := Except.bind_eq_error_iff.mp h
          · cases noParen_expectKeyword _ _ _ _ e h he
          · cases h
      · cases h
        cases he

end

/-! ## Bodies, and commands of any form -/

section

variable {lineEnd : Nat} {command : CommandReader} {inBlock : Bool} {ts : List Token}

/-- A body is a block or a sequence on one line. -/
theorem branch_ok {c : Command} {isBlock : Bool} {rest : NotLonger ts}
    (h : branch lineEnd command inBlock ts = .ok (c, isBlock, rest)) :
    (isBlock = true ∧ ∃ t us, ts = t :: us ∧ t.isOp .openParen = true ∧
      bare (block command t.start us) = .ok (c, rest.val)) ∨
    (isBlock = false ∧ (∀ t us, ts = t :: us → t.isOp .openParen = false) ∧
      bare (sequenceFrom command inBlock true none ts) = .ok (some c, rest.val)) := by
  cases ts with
  | nil => cases h
  | cons t us =>
    simp only [branch] at h
    split at h
    · rename_i hopen
      obtain ⟨⟨body, rest'⟩, hbody, h⟩ := Except.bind_eq_ok_iff.mp h
      cases h
      exact .inl ⟨rfl, t, us, rfl, hopen, by rw [hbody]; rfl⟩
    · rename_i hopen
      obtain ⟨⟨body, rest'⟩, hbody, h⟩ := Except.bind_eq_ok_iff.mp h
      dsimp only at h
      split at h
      · cases h
        rw [sequence] at hbody
        refine .inr ⟨rfl, ?_, by rw [hbody]; rfl⟩
        intro t' us' hts
        cases hts
        exact Bool.eq_false_iff.mpr hopen
      · cases h

theorem branch_error {e : FormError} (h : branch lineEnd command inBlock ts = .error e) :
    (∃ t us, ts = t :: us ∧ t.isOp .openParen = true ∧ bare (block command t.start us) = .error e) ∨
    bare (sequenceFrom command inBlock true none ts) = .error e ∨ e.fault = .missingCommand := by
  cases ts with
  | nil =>
    cases h
    exact .inr (.inr rfl)
  | cons t us =>
    simp only [branch] at h
    split at h
    · rename_i hopen
      obtain h | ⟨_, _, h⟩ := Except.bind_eq_error_iff.mp h
      · exact .inl ⟨t, us, rfl, hopen, by rw [h]; rfl⟩
      · cases h
    · obtain h | ⟨⟨body, rest⟩, _, h⟩ := Except.bind_eq_error_iff.mp h
      · rw [sequence] at h
        exact .inr (.inl (by rw [h]; rfl))
      · dsimp only at h
        split at h
        · cases h
        · cases h
          exact .inr (.inr rfl)

/-- Read the word `IF` and the condition after it. -/
def ifHead (lineEnd : Nat) (ts : List Token) : Reading (Condition × List Token) := do
  let (_, rest) ← expectWord lineEnd .ifWord ts
  bare (condition lineEnd rest.val)

theorem ifHead_ok {c : Condition} {rest : List Token} (h : ifHead lineEnd ts = .ok (c, rest)) :
    Passes ts rest := by
  obtain ⟨⟨w, after⟩, hw, h⟩ := Except.bind_eq_ok_iff.mp h
  obtain ⟨hlt, h⟩ := bare_eq_ok.mp h
  exact (passes_word? (expectWord_ok hw)).trans (condition_ok h)

/-- A condition that was read. -/
theorem conditional_ok {c : Command} {rest : List Token}
    (h : bare (conditional lineEnd command inBlock ts) = .ok (c, rest)) :
    ∃ asked us body isBlock after, ifHead lineEnd ts = .ok (asked, us) ∧
      branch lineEnd command inBlock us = .ok (body, isBlock, after) ∧
      (c = .ifThen asked body ∧ rest = after.val ∨
        isBlock = true ∧ ∃ word more other wasBlock last, word? after.val = some (word, more) ∧
          word.text.map Char.toUpper = "ELSE" ∧ branch lineEnd command inBlock more.val = .ok (other, wasBlock, last) ∧
          c = .ifElse asked body other ∧ rest = last.val) := by
  obtain ⟨hlt, h⟩ := bare_eq_ok.mp h
  unfold conditional at h
  obtain ⟨⟨w, rest1⟩, hw, h⟩ := Except.bind_eq_ok_iff.mp h
  obtain ⟨⟨asked, rest2⟩, hasked, h⟩ := Except.bind_eq_ok_iff.mp h
  obtain ⟨⟨body, isBlock, rest3⟩, hbody, h⟩ := Except.bind_eq_ok_iff.mp h
  refine ⟨asked, rest2.val, body, isBlock, rest3, ?_, hbody, ?_⟩
  · rw [ifHead, hw]
    exact bare_eq_ok.mpr ⟨rest2.property, hasked⟩
  · dsimp only at h
    split at h
    · rename_i word rest4 hword
      split at h
      · rename_i helse
        obtain ⟨⟨other, wasBlock, rest5⟩, hother, h⟩ := Except.bind_eq_ok_iff.mp h
        cases h
        obtain ⟨hblock, htext⟩ := Bool.and_eq_true_iff.mp helse
        exact .inr ⟨hblock, word, rest4, other, wasBlock, rest5, hword, beq_iff_eq.mp htext, hother, rfl, rfl⟩
      · cases h
        exact .inl ⟨rfl, rfl⟩
    · cases h
      exact .inl ⟨rfl, rfl⟩

/-- A condition that was not read. -/
theorem conditional_error {e : FormError} (h : bare (conditional lineEnd command inBlock ts) = .error e) :
    e.fault ≠ .unclosedParen ∨ ∃ asked us, ifHead lineEnd ts = .ok (asked, us) ∧
      (branch lineEnd command inBlock us = .error e ∨
        ∃ body after word more, branch lineEnd command inBlock us = .ok (body, true, after) ∧
          word? after.val = some (word, more) ∧ branch lineEnd command inBlock more.val = .error e) := by
  have h := bare_eq_error.mp h
  unfold conditional at h
  obtain h | ⟨⟨w, rest1⟩, hw, h⟩ := Except.bind_eq_error_iff.mp h
  · exact .inl (noParen_expectWord _ _ _ e h)
  obtain h | ⟨⟨asked, rest2⟩, hasked, h⟩ := Except.bind_eq_error_iff.mp h
  · exact .inl (noParen_condition _ _ e h)
  have hhead : ifHead lineEnd ts = .ok (asked, rest2.val) := by
    rw [ifHead, hw]
    exact bare_eq_ok.mpr ⟨rest2.property, hasked⟩
  refine .inr ⟨asked, rest2.val, hhead, ?_⟩
  obtain h | ⟨⟨body, isBlock, rest3⟩, hbody, h⟩ := Except.bind_eq_error_iff.mp h
  · exact .inl h
  · dsimp only at h
    split at h
    · rename_i word rest4 hword
      split at h
      · rename_i helse
        have hblock : isBlock = true := (Bool.and_eq_true_iff.mp helse).1
        subst hblock
        obtain h | ⟨_, _, h⟩ := Except.bind_eq_error_iff.mp h
        · exact .inr ⟨body, rest3, word, rest4, hbody, hword, h⟩
        · cases h
      · cases h
    · cases h

theorem loop_ok {c : Command} {rest : List Token}
    (h : bare (loop lineEnd command inBlock ts) = .ok (c, rest)) :
    ∃ head us body isBlock after, bare (loopHead lineEnd ts) = .ok (head, us) ∧
      branch lineEnd command inBlock us = .ok (body, isBlock, after) ∧ c = .loop head body ∧
      rest = after.val := by
  obtain ⟨hlt, h⟩ := bare_eq_ok.mp h
  unfold loop at h
  obtain ⟨⟨head, us⟩, hhead, h⟩ := Except.bind_eq_ok_iff.mp h
  obtain ⟨⟨body, isBlock, after⟩, hbody, h⟩ := Except.bind_eq_ok_iff.mp h
  cases h
  exact ⟨head, us.val, body, isBlock, after, bare_eq_ok.mpr ⟨us.property, hhead⟩, hbody, rfl, rfl⟩

theorem loop_error {e : FormError} (h : bare (loop lineEnd command inBlock ts) = .error e) :
    loopHead lineEnd ts = .error e ∨ ∃ head us, bare (loopHead lineEnd ts) = .ok (head, us) ∧
      branch lineEnd command inBlock us = .error e := by
  have h := bare_eq_error.mp h
  unfold loop at h
  obtain h | ⟨⟨head, us⟩, hhead, h⟩ := Except.bind_eq_error_iff.mp h
  · exact .inl h
  · obtain h | ⟨_, _, h⟩ := Except.bind_eq_error_iff.mp h
    · exact .inr ⟨head, us.val, bare_eq_ok.mpr ⟨us.property, hhead⟩, h⟩
    · cases h

/-- A remark ends before this token. -/
theorem remarkText_stop {t : Token} (h : (t.isOp .lineBreak || (inBlock && t.isOp .closeParen)) = true)
    (ts : List Token) : remarkText inBlock (t :: ts) = ("", [], ⟨t :: ts, Nat.le_refl _⟩) := if_pos h

/-- This token is part of a remark. -/
theorem remarkText_more {t : Token} (h : ¬ (t.isOp .lineBreak || (inBlock && t.isOp .closeParen)) = true)
    (ts : List Token) :
    remarkText inBlock (t :: ts) =
      (t.leading ++ t.text ++ (remarkText inBlock ts).1,
        if t.isWord then t.text :: (remarkText inBlock ts).2.1 else (remarkText inBlock ts).2.1,
        ⟨(remarkText inBlock ts).2.2.val, Nat.le_succ_of_le (remarkText inBlock ts).2.2.property⟩) := if_neg h

/-- A remark goes on to the end of the line or, inside a block, to a closing parenthesis. -/
theorem remark_rest (inBlock : Bool) (ts : List Token) :
    ∃ run, ts = run ++ (remark inBlock ts).2.val ∧
      (remark inBlock run).1 = (remark inBlock ts).1 ∧ (remark inBlock run).2.val = [] ∧
      (∀ t ∈ run, inBlock = true → t.isOp .closeParen = false) ∧
      ∀ t us, (remark inBlock ts).2.val = t :: us →
        t.isOp .lineBreak = true ∨ inBlock = true ∧ t.isOp .closeParen = true := by
  induction ts with
  | nil => exact ⟨[], rfl, rfl, rfl, by simp, fun t us hnone => by cases hnone⟩
  | cons t ts ih =>
    obtain ⟨run, hrun, hsame, hall, hclose, hstop⟩ := ih
    simp only [remark] at hrun hsame hall hstop ⊢
    by_cases h : (t.isOp .lineBreak || (inBlock && t.isOp .closeParen)) = true
    · rw [remarkText_stop h]
      refine ⟨[], rfl, rfl, rfl, by simp, ?_⟩
      intro u us hu
      cases hu
      simpa using h
    · refine ⟨t :: run, ?_⟩
      rw [remarkText_more h, remarkText_more h]
      refine ⟨congrArg (t :: ·) hrun, ?_, hall, ?_, hstop⟩
      · injection hsame with _ hargs hraw
        rw [hargs, hraw]
      · intro u hu hin
        obtain rfl | hu := List.mem_cons.mp hu
        · subst hin
          simp only [Bool.true_and, Bool.or_eq_true, not_or] at h
          exact Bool.eq_false_iff.mpr h.2
        · exact hclose u hu hin

variable {t : Token}

theorem commandWith_block (h : t.isOp .openParen = true) (us : List Token) :
    bare (commandWith lineEnd command inBlock (t :: us)) = bare (block command t.start us) := by
  simp only [commandWith, h, if_true]
  obtain e | ⟨body, rest⟩ := block command t.start us <;> rfl

theorem commandWith_if (h : t.isOp .openParen = false) {us : List Token}
    (hword : keywordAt (t :: us) = some "IF") :
    bare (commandWith lineEnd command inBlock (t :: us)) =
      bare (conditional lineEnd command inBlock (t :: us)) := by
  rw [keywordAt] at hword
  simp only [commandWith, h, Bool.false_eq_true, if_false, hword]

theorem commandWith_for (h : t.isOp .openParen = false) {us : List Token}
    (hword : keywordAt (t :: us) = some "FOR") :
    bare (commandWith lineEnd command inBlock (t :: us)) =
      bare (loop lineEnd command inBlock (t :: us)) := by
  rw [keywordAt] at hword
  simp only [commandWith, h, Bool.false_eq_true, if_false, hword]

theorem commandWith_rem (h : t.isOp .openParen = false) {us : List Token}
    (hword : keywordAt (t :: us) = some "REM") :
    bare (commandWith lineEnd command inBlock (t :: us)) =
      .ok (.simple (remark inBlock us).1, (remark inBlock us).2.val) := by
  rw [keywordAt] at hword
  simp only [commandWith, h, Bool.false_eq_true, if_false, hword]
  rfl

theorem commandWith_simple (h : t.isOp .openParen = false) {us : List Token}
    (hword : ¬ StartsForm (t :: us)) :
    bare (commandWith lineEnd command inBlock (t :: us)) =
      (do let (c, rest) ← bare (simple t us); .ok (.simple c, rest)) := by
  simp only [StartsForm, keywordAt, not_or] at hword
  simp only [commandWith, h, Bool.false_eq_true, if_false]
  split
  · cases hword.1 ‹_›
  · cases hword.2.1 ‹_›
  · cases hword.2.2 ‹_›
  · obtain e | ⟨c, rest⟩ := simple t us <;> rfl

/-- An operator other than an opening parenthesis starts no command. -/
theorem commandWith_operator (hop : t.isOperator = true) (h : t.isOp .openParen = false) (us : List Token) :
    bare (commandWith lineEnd command inBlock (t :: us)) = .error ⟨.unexpected t.text, t.start⟩ := by
  have hword : ¬ StartsForm (t :: us) := by
    obtain ⟨lexeme, start, stop, leading⟩ := t
    cases lexeme with
    | operator op => simp [StartsForm, keywordAt, peekWord?, word?]
    | word text quoted => cases hop
    | redirect sign => cases hop
  rw [commandWith_simple h hword]
  obtain ⟨lexeme, start, stop, leading⟩ := t
  cases lexeme with
  | word text quoted => cases hop
  | redirect sign => cases hop
  | operator op =>
    cases op with
    | openParen => cases h
    | _ => rfl

end

end BatchShell.Parser
