import Mathlib.Data.List.TakeWhile
import BatchShell.Proofs.Parser.Forms

/-!
# The sequence grammar

`Spells` says which tokens spell which command, without a reader in between: stages joined by bars are a
pipeline, pipelines joined by `&&` and `||` a chain, chains separated by `&` and line breaks a sequence, and
a sequence in parentheses is a command again. Conditions, loops and remarks are spelled only where `forms`
allows them.

A simple command may leave literal parentheses open, and would take a closing one that follows for its own.
The index `n` of `Spells` counts them, so that a block ends only where `n = 0`.

* `commandReader_sound`, `sequence_sound`: what was read is spelled by the tokens that were taken, and the
  reader stopped where it could not go on.
* `Spells.readBack`: what is spelled without conditions, loops and remarks is read.
-/
namespace BatchShell.Parser

/-! ## The grammar -/

/-- The parts that the grammar tells apart. The commands of a sequence stand on one line or on several. -/
inductive Part where
  | command
  | pipeline
  | chain
  | sequence (oneLine : Bool)
  /-- A sequence with the line breaks before it and a separator after it. -/
  | lines (oneLine : Bool)
  /-- What a condition or a loop runs. -/
  | body

/-- Line breaks that a sequence passes over. -/
def Breaks (oneLine : Bool) (ts : List Token) : Prop :=
  (∀ t ∈ ts, t.isOp .lineBreak = true) ∧ (oneLine = true → ts = [])

/-- What stands between two commands of a sequence. -/
def Separator (oneLine : Bool) (ts : List Token) : Prop :=
  ∃ t breaks, ts = t :: breaks ∧ separates oneLine t = true ∧ Breaks oneLine breaks

/-- What may stand after the last command of a sequence, which leaves `m` parentheses open; `n` are open
behind it. -/
def Ending (oneLine : Bool) (m n : Int) (ts : List Token) : Prop :=
  ts = [] ∧ n = m ∨ Separator oneLine ts ∧ n = 0

/-- The word `IF` and a condition. -/
def IfHead (ts : List Token) (asked : Condition) : Prop :=
  ∃ lineEnd after, keywordAt (ts ++ after) = some "IF" ∧ ifHead lineEnd (ts ++ after) = .ok (asked, after)

/-- The word `ELSE`. -/
def ElseWord (ts : List Token) : Prop :=
  ∃ all w, ∃ rest : Shorter all, word? all = some (w, rest) ∧ all = ts ++ rest.val ∧
    w.text.map Char.toUpper = "ELSE"

/-- A loop from the word `FOR` to the word `DO`. -/
def ForHead (ts : List Token) (head : LoopHead) : Prop :=
  ∃ lineEnd after, keywordAt (ts ++ after) = some "FOR" ∧
    bare (loopHead lineEnd (ts ++ after)) = .ok (head, after)

/-- `Spells forms depth inBlock part n ts c`: the tokens `ts`, inside a block or not, spell the command `c`,
which nests at most `depth` levels, and leave `n` literal parentheses open at their end. -/
inductive Spells (forms : Bool) : Nat → Bool → Part → Int → List Token → Command → Prop where
  | simple {depth inBlock t us c} (hstart : t.isOperator = false) (hform : ¬ StartsForm (t :: us))
      (hread : bare (simple t us) = .ok (c, [])) :
      Spells forms (depth + 1) inBlock .command (rise (t :: us)) (t :: us) (.simple c)
  | block {depth inBlock opened body c closed after rs} (hopen : opened.isOp .openParen = true)
      (hbody : Spells forms depth true (.lines false) 0 body c) (hclose : closed.isOp .closeParen = true)
      (hafter : bare (redirectionsFrom after) = .ok (rs, [])) :
      Spells forms (depth + 1) inBlock .command 0 (opened :: (body ++ closed :: after)) (.block c rs)
  | emptyBlock {depth inBlock opened breaks closed after rs} (hopen : opened.isOp .openParen = true)
      (hbreaks : Breaks false breaks) (hclose : closed.isOp .closeParen = true)
      (hafter : bare (redirectionsFrom after) = .ok (rs, [])) :
      Spells forms (depth + 1) inBlock .command 0 (opened :: (breaks ++ closed :: after))
        (.block (.simple .empty) rs)
  | remark {depth inBlock t us} (hforms : forms = true) (hword : keywordAt (t :: us) = some "REM")
      (hall : (remark inBlock us).2.val = []) :
      Spells forms (depth + 1) inBlock .command 0 (t :: us) (.simple (remark inBlock us).1)
  | ifThen {depth inBlock head asked n body c} (hforms : forms = true) (hhead : IfHead head asked)
      (hbody : Spells forms depth inBlock .body n body c) :
      Spells forms (depth + 1) inBlock .command n (head ++ body) (.ifThen asked c)
  | ifElse {depth inBlock head asked m body c rs word n other c'} (hforms : forms = true)
      (hhead : IfHead head asked) (hbody : Spells forms (depth + 1) inBlock .command m body (.block c rs))
      (hword : ElseWord word) (hother : Spells forms depth inBlock .body n other c') :
      Spells forms (depth + 1) inBlock .command n (head ++ (body ++ (word ++ other)))
        (.ifElse asked (.block c rs) c')
  | loop {depth inBlock head kept n body c} (hforms : forms = true) (hhead : ForHead head kept)
      (hbody : Spells forms depth inBlock .body n body c) :
      Spells forms (depth + 1) inBlock .command n (head ++ body) (.loop kept c)
  | enclosed {depth inBlock n run c rs} (hrun : Spells forms (depth + 1) inBlock .command n run (.block c rs)) :
      Spells forms depth inBlock .body n run (.block c rs)
  | inline {depth inBlock n run c} (hopen : ∀ t us, run = t :: us → t.isOp .openParen = false)
      (hrun : Spells forms depth inBlock (.lines true) n run c) : Spells forms depth inBlock .body n run c
  | stage {depth inBlock n run c} (hrun : Spells forms depth inBlock .command n run c) :
      Spells forms depth inBlock .pipeline n run c
  | pipe {depth inBlock m left l bar n right r} (hleft : Spells forms depth inBlock .pipeline m left l)
      (hbar : bar.isOp .pipe = true) (hright : Spells forms depth inBlock .command n right r) :
      Spells forms depth inBlock .pipeline n (left ++ bar :: right) (.pipe l r)
  | link {depth inBlock n run c} (hrun : Spells forms depth inBlock .pipeline n run c) :
      Spells forms depth inBlock .chain n run c
  | join {depth inBlock m left l sign n right r} (hleft : Spells forms depth inBlock .chain m left l)
      (hsign : (sign.isOp .andThen || sign.isOp .orElse) = true)
      (hright : Spells forms depth inBlock .pipeline n right r) :
      Spells forms depth inBlock .chain n (left ++ sign :: right) (joinLink sign l r)
  | item {depth inBlock oneLine n run c} (hrun : Spells forms depth inBlock .chain n run c) :
      Spells forms depth inBlock (.sequence oneLine) n run c
  | both {depth inBlock oneLine m left l between n right r}
      (hleft : Spells forms depth inBlock (.sequence oneLine) m left l)
      (hbetween : Separator oneLine between) (hright : Spells forms depth inBlock .chain n right r) :
      Spells forms depth inBlock (.sequence oneLine) n (left ++ (between ++ right)) (.both l r)
  | lines {depth inBlock oneLine breaks m run c n ending} (hbreaks : Breaks oneLine breaks)
      (hrun : Spells forms depth inBlock (.sequence oneLine) m run c) (hending : Ending oneLine m n ending) :
      Spells forms depth inBlock (.lines oneLine) n (breaks ++ (run ++ ending)) c

/-! ## Soundness -/

/-- Does a reader of the part go on when `t` is the next token? -/
def Part.goesOn (t : Token) : Part → Bool
  | .command => false
  | .pipeline => t.isOp .pipe
  | .chain => t.isOp .pipe || t.isOp .andThen || t.isOp .orElse
  | .sequence oneLine => t.isOp .pipe || t.isOp .andThen || t.isOp .orElse || separates oneLine t
  | .lines oneLine => t.isOp .pipe || t.isOp .andThen || t.isOp .orElse || separates oneLine t
  | .body => false

/-- The reader of a part stops before these tokens, with `n` literal parentheses open. -/
def Stops (part : Part) (n : Int) (rest : List Token) : Prop :=
  ∀ t us, rest = t :: us → part.goesOn t = false ∧ (t.isOp .closeParen = true → n = 0)

theorem Stops.nil (part : Part) (n : Int) : Stops part n [] := by
  intro t us h
  cases h

theorem Stops.cons {part : Part} {n : Int} {t : Token} {us : List Token} (hgo : part.goesOn t = false)
    (hclose : t.isOp .closeParen = true → n = 0) : Stops part n (t :: us) := by
  intro t' us' h
  cases h
  exact ⟨hgo, hclose⟩

/-- The tokens `all` up to `rest` spell `c`, and the part ends there. -/
def ReadAs (forms : Bool) (depth : Nat) (inBlock : Bool) (part : Part) (all : List Token) (c : Command)
    (rest : List Token) : Prop :=
  ∃ run n, all = run ++ rest ∧ Spells forms depth inBlock part n run c ∧ Stops part n rest

/-- What a reader leaves is the end of what it was given. -/
theorem ReadAs.suffix {forms : Bool} {depth : Nat} {inBlock : Bool} {part : Part} {ts rest : List Token}
    {c : Command} (h : ReadAs forms depth inBlock part ts c rest) : rest <:+ ts := by
  obtain ⟨run, n, rfl, -⟩ := h
  exact List.suffix_append run rest

/-- Conditions, loops and remarks are allowed, or there are none. -/
def Allowed (forms : Bool) (ts : List Token) : Prop := forms = true ∨ ∀ us, us <:+ ts → ¬ StartsForm us

theorem Allowed.of_suffix {forms : Bool} {ts us : List Token} (h : Allowed forms ts) (hus : us <:+ ts) :
    Allowed forms us :=
  h.imp_right fun hno vs hvs => hno vs (hvs.trans hus)

theorem Allowed.forms {forms : Bool} {ts : List Token} (h : Allowed forms ts) (hts : StartsForm ts) :
    forms = true :=
  h.resolve_right fun hno => hno ts (List.suffix_refl ts) hts

/-- These tokens may follow a command that leaves `n` literal parentheses open. -/
def Follows (n : Int) (rest : List Token) : Prop :=
  ∀ t us, rest = t :: us →
    t.isOperator = true ∧ t.isOp .openParen = false ∧ (t.isOp .closeParen = true → n = 0)

theorem Follows.nil (n : Int) : Follows n [] := by
  intro t us h
  cases h

theorem isOperator_of_isOp {t : Token} {op : Operator} (h : t.isOp op = true) : t.isOperator = true := by
  rw [Token.isOp, beq_iff_eq] at h
  rw [Token.isOperator, h]

/-- A token is one operator at most. -/
theorem isOp_eq_false {t : Token} {op other : Operator} (h : t.isOp op = true) (hne : op ≠ other) :
    t.isOp other = false := by
  rw [Token.isOp, beq_iff_eq] at h
  rw [Token.isOp, h, beq_eq_false_iff_ne]
  simpa using hne

theorem isGlued_of_isOperator {t : Token} (h : t.isOperator = true) : isGlued t = false := by
  cases hword : t.isWord with
  | false => rw [isGlued, hword, Bool.false_and]
  | true =>
    rw [isOperator_of_isWord hword] at h
    cases h

/-- A command does not go on with what follows it. -/
theorem Follows.unglued {n : Int} {rest : List Token} (h : Follows n rest) : Unglued rest := by
  intro t us hrest
  exact isGlued_of_isOperator (h t us hrest).1

theorem Unglued.append {ts rest : List Token} (hts : Unglued ts) (hrest : Unglued rest) :
    Unglued (ts ++ rest) := by
  cases ts with
  | nil => exact hrest
  | cons t ts =>
    intro t' us' h
    cases h
    exact hts t ts rfl

theorem unglued_dropWhile (ts : List Token) : Unglued (ts.dropWhile isGlued) := by
  intro t us h
  simpa [h] using List.head?_dropWhile_not isGlued ts

/-- The target of a redirection says the same whatever follows that is not glued to it. -/
theorem redirectTarget_run {t : Token} {sign : RedirectSign} {ts rest : List Token} {r : Redirection}
    (h : bare (redirectTarget t sign ts) = .ok (r, rest)) :
    ∃ run, ts = run ++ rest ∧ rise run = 0 ∧ ∀ rest', (Unglued rest → Unglued rest') →
      bare (redirectTarget t sign (run ++ rest')) = .ok (r, rest') := by
  obtain ⟨d, hcopy, heq⟩ | ⟨hcopy, u, us, rfl, hword, heq⟩ | ⟨-, -, heq⟩ := redirectTarget_cases t sign ts
  · cases heq.symm.trans h
    exact ⟨[], rfl, rfl, fun rest' _ => redirectTarget_copy hcopy t rest'⟩
  · cases heq.symm.trans h
    have hsplit : us.takeWhile isGlued ++ us.dropWhile isGlued = us := List.takeWhile_append_dropWhile
    have hend := unglued_dropWhile us
    refine ⟨u :: us.takeWhile isGlued, congrArg (u :: ·) hsplit.symm, ?_, ?_⟩
    · rw [rise_cons, rise_takeWhile_isGlued, tokenRise_of_not_operator (isOperator_of_isWord hword)]
      rfl
    · intro rest' hrest'
      have hnone : (us.takeWhile isGlued).dropWhile isGlued = [] :=
        List.dropWhile_eq_nil_iff.mpr fun _ => List.mem_takeWhile_imp
      have hsame := (glued_append hend (us.takeWhile isGlued)).1
      rw [hsplit] at hsame
      have hnext := glued_append (hrest' hend) (us.takeWhile isGlued)
      rw [List.cons_append, redirectTarget_file hcopy t hword, hnext.1, hnext.2, hnone, hsame]
      rfl
  · cases heq.symm.trans h

/-- What is not glued stays so when what follows it is exchanged. -/
theorem Unglued.exchange {run rest rest' : List Token} (h : Unglued (run ++ rest)) (hrest' : Unglued rest') :
    Unglued (run ++ rest') := by
  refine Unglued.append (fun t us hus => ?_) hrest'
  exact h t (us ++ rest) (by rw [hus]; rfl)

/-- The redirections of a block say the same before anything that may follow it. -/
theorem redirectionsFrom_run {ts rest : List Token} {rs : List Redirection}
    (h : bare (redirectionsFrom ts) = .ok (rs, rest)) :
    ∃ run, ts = run ++ rest ∧ rise run = 0 ∧ ∀ rest', Follows 0 rest' →
      bare (redirectionsFrom (run ++ rest')) = .ok (rs, rest') := by
  have hnone : ∀ rest', Follows 0 rest' → bare (redirectionsFrom ([] ++ rest')) = .ok ([], rest') := by
    intro rest' hrest'
    cases rest' with
    | nil => exact redirectionsFrom_nil
    | cons t us =>
      refine redirectionsFrom_stop (fun sign hsign => ?_) us
      have hop := (hrest' t us rfl).1
      rw [Token.isOperator, hsign] at hop
      cases hop
  induction hlen : ts.length using Nat.strongRecOn generalizing ts rs with
  | _ len ih =>
    cases ts with
    | nil =>
      cases redirectionsFrom_nil.symm.trans h
      exact ⟨[], rfl, rfl, hnone⟩
    | cons t us =>
      by_cases hsign : ∃ sign, t.lexeme = .redirect sign
      · obtain ⟨sign, hsign⟩ := hsign
        rw [redirectionsFrom_redirect hsign] at h
        obtain ⟨⟨first, rest1⟩, hfirst, h⟩ := Except.bind_eq_ok_iff.mp h
        obtain ⟨⟨more, rest2⟩, hmore, h⟩ := Except.bind_eq_ok_iff.mp h
        cases h
        obtain ⟨run1, rfl, hrise1, hrun1⟩ := redirectTarget_run hfirst
        obtain ⟨run2, rfl, hrise2, hrun2⟩ := ih rest1.length (by simp at hlen; omega) hmore rfl
        have hsame : tokenRise t = 0 := tokenRise_of_not_operator (by rw [Token.isOperator, hsign])
        refine ⟨t :: (run1 ++ run2), by simp, by simp [hsame, hrise1, hrise2], ?_⟩
        intro rest' hrest'
        rw [List.cons_append, List.append_assoc, redirectionsFrom_redirect hsign,
          hrun1 _ fun hrun => hrun.exchange hrest'.unglued]
        simp [hrun2 rest' hrest']
      · have hno : ∀ sign, t.lexeme ≠ .redirect sign := fun sign hsig => hsign ⟨sign, hsig⟩
        cases (redirectionsFrom_stop hno us).symm.trans h
        exact ⟨[], rfl, rfl, hnone⟩

namespace SimpleScan

variable (s : SimpleScan)

@[simp] theorem closeWord_parens : s.closeWord.parens = s.parens := by
  unfold closeWord
  split
  · rfl
  · split <;> rfl

@[simp] theorem addText_parens (leading text : String) : (s.addText leading text).parens = s.parens := by
  unfold addText
  split
  · split
    · rfl
    · exact s.closeWord_parens
  · rfl

@[simp] theorem addRedirection_parens (r : Redirection) : (s.addRedirection r).parens = s.parens :=
  s.closeWord_parens

@[simp] theorem openLiteral_parens (leading : String) : (s.openLiteral leading).parens = s.parens + 1 := rfl

@[simp] theorem closeLiteral_parens (leading : String) : (s.closeLiteral leading).parens = s.parens - 1 := rfl

end SimpleScan

/-- The tokens `ts` up to `rest` are taken into the command `c` by a scan that is at `s`, whatever follows them
that may follow a command. -/
def TakenInto (s : SimpleScan) (ts : List Token) (c : SimpleCommand) (rest : List Token) : Prop :=
  ∃ run, ts = run ++ rest ∧ 0 ≤ s.parens + rise run ∧ Follows (s.parens + rise run) rest ∧
    ∀ rest', Follows (s.parens + rise run) rest' → bare (simpleFrom s (run ++ rest')) = .ok (c, rest')

namespace TakenInto

variable {s s' : SimpleScan} {c : SimpleCommand} {t : Token} {us rest : List Token}

theorem stop (h : Follows s.parens rest) : TakenInto s rest s.finish rest := by
  refine ⟨[], rfl, by simp, by simpa using h, ?_⟩
  intro rest' hrest'
  cases rest' with
  | nil => exact simpleFrom_nil s
  | cons t us =>
    obtain ⟨hop, hopen, hclose⟩ := hrest' t us rfl
    obtain ⟨lexeme, start, stop, leading⟩ := t
    rw [List.nil_append, simpleFrom_cons]
    cases lexeme with
    | word text quoted => cases hop
    | redirect sign => cases hop
    | operator op =>
      cases op with
      | openParen => cases hopen
      | closeParen =>
        have hzero := hclose rfl
        rw [rise_nil] at hzero
        exact if_neg (by omega)
      | _ => rfl

/-- One token more. -/
theorem take (hparens : (s'.parens : Int) = s.parens + tokenRise t)
    (hstep : ∀ us, bare (simpleFrom s (t :: us)) = bare (simpleFrom s' us))
    (h : TakenInto s' us c rest) : TakenInto s (t :: us) c rest := by
  obtain ⟨run, rfl, hpos, hfollows, hrun⟩ := h
  refine ⟨t :: run, rfl, ?_⟩
  rw [rise_cons, ← Int.add_assoc, ← hparens]
  exact ⟨hpos, hfollows, fun rest' hrest' => (hstep _).trans (hrun rest' hrest')⟩

/-- One redirection more. -/
theorem redirect {sign : RedirectSign} (hsign : t.lexeme = .redirect sign) {r : Redirection}
    {after : List Token} (htarget : bare (redirectTarget t sign us) = .ok (r, after))
    (h : TakenInto (s.addRedirection r) after c rest) : TakenInto s (t :: us) c rest := by
  obtain ⟨run, rfl, hpos, hfollows, hrun⟩ := h
  obtain ⟨run1, rfl, hrise, hrun1⟩ := redirectTarget_run htarget
  have hsame : tokenRise t = 0 := tokenRise_of_not_operator (by rw [Token.isOperator, hsign])
  rw [SimpleScan.addRedirection_parens] at hpos hfollows hrun
  have heq : rise (t :: (run1 ++ run)) = rise run := by simp [hsame, hrise]
  refine ⟨t :: (run1 ++ run), by simp, ?_⟩
  rw [heq]
  refine ⟨hpos, hfollows, fun rest' hrest' => ?_⟩
  rw [List.cons_append, List.append_assoc, simpleFrom_cons, hsign]
  dsimp only
  rw [hrun1 _ fun hglue => hglue.exchange hrest'.unglued]
  exact hrun rest' hrest'

end TakenInto

/-- What a simple command takes is itself a simple command, before anything that may follow it. -/
theorem simpleFrom_ok {s : SimpleScan} {ts rest : List Token} {c : SimpleCommand}
    (h : bare (simpleFrom s ts) = .ok (c, rest)) : TakenInto s ts c rest := by
  induction hlen : ts.length using Nat.strongRecOn generalizing s ts with
  | _ len ih =>
    cases ts with
    | nil =>
      cases (simpleFrom_nil s).symm.trans h
      exact .stop (.nil _)
    | cons t us =>
      have hus : us.length < len := by simp at hlen; omega
      have heq := simpleFrom_cons s t
      obtain ⟨lexeme, start, stop, leading⟩ := t
      rw [simpleFrom_cons] at h
      cases lexeme with
      | word text quoted => exact .take (by simp [tokenRise, Token.isOp]) heq (ih _ hus h rfl)
      | redirect sign =>
        obtain ⟨⟨r, after⟩, htarget, hmore⟩ := Except.bind_eq_ok_iff.mp h
        have hle := of_bare htarget
        exact .redirect rfl htarget (ih _ (by omega) hmore rfl)
      | operator op =>
        cases op with
        | openParen => exact .take (by simp [tokenRise, Token.isOp]) heq (ih _ hus h rfl)
        | closeParen =>
          dsimp only at h heq
          split at h
          · rename_i hpos
            simp only [hpos, if_true] at heq
            exact .take (by simp [tokenRise, Token.isOp]; omega) heq (ih _ hus h rfl)
          · rename_i hzero
            cases h
            refine .stop fun t us hts => ?_
            cases hts
            exact ⟨rfl, rfl, fun _ => by omega⟩
        | _ =>
          cases h
          refine .stop fun t us hts => ?_
          cases hts
          exact ⟨rfl, rfl, fun hclose => by cases hclose⟩

/-- A simple command that starts with a word or a redirection. -/
theorem simple_ok {t : Token} (hstart : t.isOperator = false) {us rest : List Token} {c : SimpleCommand}
    (h : bare (simple t us) = .ok (c, rest)) :
    ∃ run, us = run ++ rest ∧ 0 ≤ rise (t :: run) ∧ Follows (rise (t :: run)) rest ∧
      ∀ rest', Follows (rise (t :: run)) rest' → bare (simple t (run ++ rest')) = .ok (c, rest') := by
  rw [simple_eq_simpleFrom hstart] at h
  obtain ⟨run, hrun, hpos, hfollows, htake⟩ := simpleFrom_ok h
  have hzero : ((SimpleScan.start.parens : Nat) : Int) + rise run = rise run := Int.zero_add _
  rw [hzero] at hpos hfollows htake
  cases run with
  | nil =>
    have hop := (hfollows t us hrun.symm).1
    rw [hstart] at hop
    cases hop
  | cons t' run =>
    cases hrun
    refine ⟨run, rfl, hpos, hfollows, fun rest' hrest' => ?_⟩
    rw [simple_eq_simpleFrom hstart]
    exact htake rest' hrest'

/-- The first word of a command does not depend on what follows the command. -/
theorem keywordAt_append {rest : List Token} (h : Unglued rest) (t : Token) (us : List Token) :
    keywordAt (t :: (us ++ rest)) = keywordAt (t :: us) := by
  cases hword : t.isWord with
  | false =>
    rw [keywordAt, keywordAt, peekWord?, peekWord?, word?_of_not_word hword, word?_of_not_word hword]
    rfl
  | true =>
    obtain ⟨_, hlong⟩ := word?_cons hword (us ++ rest)
    obtain ⟨_, hshort⟩ := word?_cons hword us
    simp only [keywordAt, peekWord?, hlong, hshort, (glued_append h us).1, Option.map_some]

theorem startsForm_append {rest : List Token} (h : Unglued rest) (t : Token) (us : List Token) :
    StartsForm (t :: (us ++ rest)) ↔ StartsForm (t :: us) := by
  rw [StartsForm, StartsForm, keywordAt_append h]

/-- The commands that a reader returns are spelled by what it took. -/
def Sound (forms : Bool) (depth : Nat) (command : CommandReader) : Prop :=
  ∀ inBlock ts c rest, Allowed forms ts → bare (command inBlock ts) = .ok (c, rest) →
    ReadAs forms depth inBlock .command ts c rest

section

variable {forms : Bool} {depth : Nat} {command : CommandReader} {inBlock oneLine : Bool}
  {ts rest : List Token} {c : Command}

theorem pipelineFrom_sound (hcommand : Sound forms depth command) {left : Command} {m : Int}
    {run : List Token} (hts : Allowed forms ts) (hleft : Spells forms depth inBlock .pipeline m run left)
    (hstop : Stops .command m ts) (h : bare (pipelineFrom command inBlock left ts) = .ok (c, rest)) :
    ReadAs forms depth inBlock .pipeline (run ++ ts) c rest := by
  induction hlen : ts.length using Nat.strongRecOn generalizing ts left m run with
  | _ len ih =>
    cases ts with
    | nil =>
      cases (pipelineFrom_nil command inBlock left).symm.trans h
      exact ⟨run, m, rfl, hleft, .nil _ _⟩
    | cons t us =>
      rw [pipelineFrom_cons] at h
      split at h
      · rename_i hbar
        obtain ⟨_, -, h⟩ := Except.bind_eq_ok_iff.mp h
        obtain ⟨⟨right, rest1⟩, hright, hmore⟩ := Except.bind_eq_ok_iff.mp h
        obtain ⟨run1, n, rfl, hspells, hstop1⟩ :=
          hcommand inBlock us right rest1 (hts.of_suffix (List.suffix_cons t us)) hright
        have hread := ih rest1.length (by simp at hlen; omega)
          (hts.of_suffix ⟨t :: run1, rfl⟩) (hleft.pipe hbar hspells) hstop1 hmore rfl
        rwa [List.append_assoc, List.cons_append] at hread
      · rename_i hbar
        cases h
        exact ⟨run, m, rfl, hleft, .cons (Bool.eq_false_iff.mpr hbar) (hstop t us rfl).2⟩

theorem pipeline_sound (hcommand : Sound forms depth command) (hts : Allowed forms ts)
    (h : bare (pipeline command inBlock ts) = .ok (c, rest)) :
    ReadAs forms depth inBlock .pipeline ts c rest := by
  rw [pipeline_eq] at h
  obtain ⟨⟨left, rest1⟩, hleft, hmore⟩ := Except.bind_eq_ok_iff.mp h
  obtain ⟨run, m, rfl, hspells, hstop⟩ := hcommand inBlock ts left rest1 hts hleft
  exact pipelineFrom_sound hcommand (hts.of_suffix (List.suffix_append run rest1)) hspells.stage hstop hmore

theorem chainFrom_sound (hcommand : Sound forms depth command) {left : Command} {m : Int}
    {run : List Token} (hts : Allowed forms ts) (hleft : Spells forms depth inBlock .chain m run left)
    (hstop : Stops .pipeline m ts) (h : bare (chainFrom command inBlock left ts) = .ok (c, rest)) :
    ReadAs forms depth inBlock .chain (run ++ ts) c rest := by
  induction hlen : ts.length using Nat.strongRecOn generalizing ts left m run with
  | _ len ih =>
    cases ts with
    | nil =>
      cases (chainFrom_nil command inBlock left).symm.trans h
      exact ⟨run, m, rfl, hleft, .nil _ _⟩
    | cons t us =>
      rw [chainFrom_cons] at h
      split at h
      · rename_i hsign
        obtain ⟨_, -, h⟩ := Except.bind_eq_ok_iff.mp h
        obtain ⟨⟨right, rest1⟩, hright, hmore⟩ := Except.bind_eq_ok_iff.mp h
        obtain ⟨run1, n, rfl, hspells, hstop1⟩ :=
          pipeline_sound hcommand (hts.of_suffix (List.suffix_cons t us)) hright
        have hread := ih rest1.length (by simp at hlen; omega)
          (hts.of_suffix ⟨t :: run1, rfl⟩) (hleft.join hsign hspells) hstop1 hmore rfl
        rwa [List.append_assoc, List.cons_append] at hread
      · rename_i hsign
        cases h
        obtain ⟨hbar, hclose⟩ := hstop t us rfl
        have hgo : Part.goesOn t .chain = false := by
          rw [Part.goesOn, Bool.or_assoc, Bool.eq_false_iff.mpr hsign, Bool.or_false]
          exact hbar
        exact ⟨run, m, rfl, hleft, .cons hgo hclose⟩

theorem chain_sound (hcommand : Sound forms depth command) (hts : Allowed forms ts)
    (h : bare (chain command inBlock ts) = .ok (c, rest)) :
    ReadAs forms depth inBlock .chain ts c rest := by
  rw [chain_eq] at h
  obtain ⟨⟨left, rest1⟩, hleft, hmore⟩ := Except.bind_eq_ok_iff.mp h
  obtain ⟨run, m, rfl, hspells, hstop⟩ := pipeline_sound hcommand hts hleft
  exact chainFrom_sound hcommand (hts.of_suffix (List.suffix_append run rest1)) hspells.link hstop hmore

theorem Breaks.nil (oneLine : Bool) : Breaks oneLine [] := ⟨by simp, fun _ => rfl⟩

theorem breaks_takeWhile (ts : List Token) : Breaks false (ts.takeWhile (·.isOp .lineBreak)) :=
  ⟨fun _ => List.mem_takeWhile_imp, fun hone => by cases hone⟩

/-- The tokens before the next command of a sequence are line breaks. -/
theorem itemStart_split (oneLine : Bool) (ts : List Token) :
    ∃ breaks, ts = breaks ++ itemStart oneLine ts ∧ Breaks oneLine breaks := by
  cases oneLine with
  | true => exact ⟨[], rfl, .nil true⟩
  | false => exact ⟨_, List.takeWhile_append_dropWhile.symm, breaks_takeWhile ts⟩

/-- Where a command would start, a reader of lines stops before what ends the sequence. -/
theorem stops_of_endsSequence {t : Token} (h : endsSequence oneLine t = true) (us : List Token) :
    Stops (.lines oneLine) 0 (t :: us) := by
  refine .cons ?_ fun _ => rfl
  obtain ⟨lexeme, start, stop, leading⟩ := t
  cases lexeme with
  | operator op => cases op <;> cases oneLine <;> simp_all [endsSequence, Part.goesOn, separates, Token.isOp]
  | word text quoted => simp [endsSequence, Token.isOp] at h
  | redirect sign => simp [endsSequence, Token.isOp] at h

/-- What follows a command of a sequence. -/
theorem afterItem_sound (hcommand : Sound forms depth command) {joined : Command} {m : Int}
    {run : List Token} {found : Option Command} (hts : Allowed forms ts)
    (hjoined : Spells forms depth inBlock (.sequence oneLine) m run joined) (hstop : Stops .chain m ts)
    (h : afterItem command inBlock oneLine joined ts = .ok (found, rest)) :
    ∃ c, found = some c ∧ ReadAs forms depth inBlock (.lines oneLine) (run ++ ts) c rest := by
  induction hlen : ts.length using Nat.strongRecOn generalizing ts joined m run with
  | _ len ih =>
    cases ts with
    | nil =>
      cases h
      exact ⟨joined, rfl, [] ++ (run ++ []), m, by simp, .lines (.nil oneLine) hjoined (.inl ⟨rfl, rfl⟩), .nil _ _⟩
    | cons sign us =>
      rw [afterItem] at h
      split at h
      · rename_i hsign
        obtain ⟨breaks, hbreaks, hall⟩ := itemStart_split oneLine us
        have hsep : Separator oneLine (sign :: breaks) := ⟨sign, breaks, rfl, hsign, hall⟩
        have hdone : ∀ tail, Stops (.lines oneLine) 0 tail →
            ReadAs forms depth inBlock (.lines oneLine) (run ++ sign :: (breaks ++ tail)) joined tail := by
          intro tail htail
          refine ⟨[] ++ (run ++ sign :: breaks), 0, by simp, ?_, htail⟩
          exact .lines (.nil oneLine) hjoined (.inr ⟨hsep, rfl⟩)
        rw [sequenceFrom_eq] at h
        generalize itemStart oneLine us = start at h hbreaks
        subst hbreaks
        cases start with
        | nil =>
          cases h
          exact ⟨joined, rfl, hdone [] (.nil _ _)⟩
        | cons t us =>
          dsimp only at h
          split at h
          · rename_i hend
            cases h
            exact ⟨joined, rfl, hdone _ (stops_of_endsSequence hend us)⟩
          · split at h
            · cases h
            · obtain ⟨⟨item, rest1⟩, hitem, hmore⟩ := Except.bind_eq_ok_iff.mp h
              obtain ⟨run1, n, hrun1, hspells, hstop1⟩ :=
                chain_sound hcommand (hts.of_suffix ⟨sign :: breaks, rfl⟩) hitem
              have hrest1 : rest1 <:+ sign :: (breaks ++ t :: us) := by
                rw [hrun1]
                exact ⟨sign :: (breaks ++ run1), by simp⟩
              have hboth := hjoined.both hsep hspells
              have hread := ih rest1.length (by have := of_bare hitem; simp at this hlen; omega)
                (hts.of_suffix hrest1) hboth hstop1 hmore rfl
              rw [hrun1]
              simpa using hread
      · rename_i hsign
        cases h
        obtain ⟨hgo, hclose⟩ := hstop sign us rfl
        refine ⟨joined, rfl, [] ++ (run ++ []), m, by simp, .lines (.nil oneLine) hjoined (.inl ⟨rfl, rfl⟩), ?_⟩
        refine .cons ?_ hclose
        change (Part.goesOn sign .chain || separates oneLine sign) = false
        rw [hgo, Bool.eq_false_iff.mpr hsign]
        rfl

/-- Line breaks before a sequence belong to its lines. -/
theorem Spells.lines_after_breaks {n : Int} {breaks run : List Token} (hbreaks : Breaks oneLine breaks)
    (h : Spells forms depth inBlock (.lines oneLine) n run c) :
    Spells forms depth inBlock (.lines oneLine) n (breaks ++ run) c := by
  cases h with
  | lines hbreaks' hrun hending =>
    rw [← List.append_assoc]
    refine .lines ⟨?_, ?_⟩ hrun hending
    · intro t ht
      exact (List.mem_append.mp ht).elim (hbreaks.1 t) (hbreaks'.1 t)
    · intro hone
      rw [hbreaks.2 hone, hbreaks'.2 hone]
      rfl

/-- A sequence that was read has a command, or only line breaks before its end. -/
theorem sequence_sound (hcommand : Sound forms depth command) {found : Option Command}
    (hts : Allowed forms ts) (h : bare (sequenceFrom command inBlock oneLine none ts) = .ok (found, rest)) :
    (∃ c, found = some c ∧ ReadAs forms depth inBlock (.lines oneLine) ts c rest) ∨
      found = none ∧ ∃ breaks, ts = breaks ++ rest ∧ Breaks oneLine breaks ∧
        ∀ t us, rest = t :: us → endsSequence oneLine t = true := by
  obtain ⟨breaks, hbreaks, hall⟩ := itemStart_split oneLine ts
  rw [sequenceFrom_eq] at h
  generalize itemStart oneLine ts = start at h hbreaks
  subst hbreaks
  cases start with
  | nil =>
    cases h
    exact .inr ⟨rfl, breaks, rfl, hall, by simp⟩
  | cons t us =>
    dsimp only at h
    split at h
    · rename_i hend
      cases h
      refine .inr ⟨rfl, breaks, rfl, hall, fun t' us' heq => ?_⟩
      cases heq
      exact hend
    · split at h
      · cases h
      · obtain ⟨⟨item, rest1⟩, hitem, hmore⟩ := Except.bind_eq_ok_iff.mp h
        have hus := hts.of_suffix (List.suffix_append breaks (t :: us))
        obtain ⟨run, n, hrun, hspells, hstop⟩ := chain_sound hcommand hus hitem
        rw [hrun] at hus
        obtain ⟨c, hc, run', n', hrun', hspells', hstop'⟩ :=
          afterItem_sound hcommand (hus.of_suffix (List.suffix_append run rest1)) hspells.item hstop hmore
        refine .inl ⟨c, hc, breaks ++ run', n', ?_, hspells'.lines_after_breaks hall, hstop'⟩
        rw [hrun, hrun', List.append_assoc]

/-- A block that was read, from its opening parenthesis on. -/
theorem block_sound (inBlock : Bool) (hcommand : Sound forms depth command) {t : Token}
    (hopen : t.isOp .openParen = true) {opened : Nat} (hts : Allowed forms ts)
    (h : bare (block command opened ts) = .ok (c, rest)) :
    ∃ inner rs run, c = .block inner rs ∧ t :: ts = run ++ rest ∧
      Spells forms (depth + 1) inBlock .command 0 run c := by
  rw [block_eq] at h
  obtain ⟨⟨body, rest1⟩, hbody, h1⟩ := Except.bind_eq_ok_iff.mp h
  cases rest1 with
  | nil => cases h1
  | cons u us =>
    dsimp only at h1
    split at h1
    · rename_i hclose
      obtain ⟨⟨rs, after⟩, hrs, h2⟩ := Except.bind_eq_ok_iff.mp h1
      cases h2
      obtain ⟨run2, rfl, -, hrun2⟩ := redirectionsFrom_run hrs
      have hafter := hrun2 [] (.nil 0)
      rw [List.append_nil] at hafter
      obtain ⟨inner, rfl, run, n, rfl, hspells, hstop⟩ | ⟨rfl, breaks, rfl, hbreaks, -⟩ :=
        sequence_sound hcommand hts hbody
      · cases (hstop u _ rfl).2 hclose
        exact ⟨inner, rs, t :: (run ++ u :: run2), rfl, by simp, .block hopen hspells hclose hafter⟩
      · exact ⟨.simple .empty, rs, t :: (breaks ++ u :: run2), rfl, by simp,
          .emptyBlock hopen hbreaks hclose hafter⟩
    · cases h1

theorem branch_sound (hcommand : Sound forms depth command) {lineEnd : Nat} {isBlock : Bool}
    {rest : NotLonger ts} (hts : Allowed forms ts)
    (h : branch lineEnd command inBlock ts = .ok (c, isBlock, rest)) :
    ReadAs forms depth inBlock .body ts c rest.val ∧ (isBlock = true → ∃ inner rs run,
      c = .block inner rs ∧ ts = run ++ rest.val ∧ Spells forms (depth + 1) inBlock .command 0 run c) := by
  obtain ⟨-, t, us, rfl, hopen, hblock⟩ | ⟨hno, hopen, hlines⟩ := branch_ok h
  · obtain ⟨inner, rs, run, rfl, hrun, hspells⟩ := block_sound inBlock hcommand hopen
      (hts.of_suffix (List.suffix_cons t us)) hblock
    refine ⟨⟨run, 0, hrun, .enclosed hspells, ?_⟩, fun _ => ⟨inner, rs, run, rfl, hrun, hspells⟩⟩
    exact fun t us _ => ⟨rfl, fun _ => rfl⟩
  · subst hno
    obtain ⟨c', hc', run, n, hrun, hspells, hstop⟩ | ⟨hnone, -⟩ := sequence_sound hcommand hts hlines
    · cases hc'
      refine ⟨⟨run, n, hrun, .inline ?_ hspells, fun t us htail => ⟨rfl, (hstop t us htail).2⟩⟩, by simp⟩
      intro t us hcons
      exact hopen t (us ++ rest.val) (hrun.trans (by rw [hcons]; rfl))
    · cases hnone

end

section

variable {forms inBlock : Bool} {depth lineEnd : Nat} {inner : CommandReader} {ts rest : List Token}
  {c : Command}

theorem conditional_sound (hinner : Sound forms depth inner) (hts : Allowed forms ts)
    (hword : keywordAt ts = some "IF") (h : bare (conditional lineEnd inner inBlock ts) = .ok (c, rest)) :
    ReadAs forms (depth + 1) inBlock .command ts c rest := by
  have hforms : forms = true := hts.forms (.inl hword)
  obtain ⟨asked, us, body, isBlock, after, hhead, hbody, hcase⟩ := conditional_ok h
  obtain ⟨head, rfl, -⟩ := ifHead_ok hhead
  have hus := hts.of_suffix (List.suffix_append head us)
  have hif : IfHead head asked := ⟨lineEnd, us, hword, hhead⟩
  obtain ⟨⟨run, n, hrun, hspells, hstop⟩, hblock⟩ := branch_sound hinner hus hbody
  obtain ⟨rfl, rfl⟩ | ⟨hisBlock, word, more, other, wasBlock, last, hnext, helse, hother, rfl, rfl⟩ := hcase
  · exact ⟨head ++ run, n, by rw [List.append_assoc, ← hrun], .ifThen hforms hif hspells,
      fun t us hrest => ⟨rfl, (hstop t us hrest).2⟩⟩
  · obtain ⟨kept, rs, run, rfl, hrun, hspells⟩ := hblock hisBlock
    obtain ⟨ws, hws, -⟩ := passes_word? hnext
    have hmore : more.val <:+ us := ⟨run ++ ws, by rw [List.append_assoc, ← hws, ← hrun]⟩
    obtain ⟨⟨run', n', hrun', hspells', hstop'⟩, -⟩ := branch_sound hinner (hus.of_suffix hmore) hother
    have hall : us = run ++ (ws ++ (run' ++ last.val)) :=
      hrun.trans (congrArg (run ++ ·) (hws.trans (congrArg (ws ++ ·) hrun')))
    refine ⟨head ++ (run ++ (ws ++ run')), n', ?_,
      .ifElse hforms hif hspells ⟨after.val, word, more, hnext, hws, helse⟩ hspells',
      fun t us hrest => ⟨rfl, (hstop' t us hrest).2⟩⟩
    refine (congrArg (head ++ ·) hall).trans ?_
    simp only [List.append_assoc]

theorem loop_sound (hinner : Sound forms depth inner) (hts : Allowed forms ts)
    (hword : keywordAt ts = some "FOR") (h : bare (loop lineEnd inner inBlock ts) = .ok (c, rest)) :
    ReadAs forms (depth + 1) inBlock .command ts c rest := by
  obtain ⟨kept, us, body, isBlock, after, hhead, hbody, rfl, rfl⟩ := loop_ok h
  obtain ⟨hlt, hread⟩ := bare_eq_ok.mp hhead
  obtain ⟨head, hsplit, -⟩ := loopHead_ok hread
  dsimp only at hsplit
  subst hsplit
  have hus := hts.of_suffix (List.suffix_append head us)
  obtain ⟨⟨run, n, hrun, hspells, hstop⟩, -⟩ := branch_sound hinner hus hbody
  exact ⟨head ++ run, n, by rw [List.append_assoc, ← hrun],
    .loop (hts.forms (.inr (.inl hword))) ⟨lineEnd, us, hword, hhead⟩ hspells,
    fun t us hrest => ⟨rfl, (hstop t us hrest).2⟩⟩

theorem remark_sound {t : Token} {us : List Token} (hts : Allowed forms (t :: us))
    (hword : keywordAt (t :: us) = some "REM") :
    ReadAs forms (depth + 1) inBlock .command (t :: us) (.simple (remark inBlock us).1)
      (remark inBlock us).2.val := by
  obtain ⟨run, hrun, hsame, hall, -, hstop⟩ := remark_rest inBlock us
  have hend : Unglued (remark inBlock us).2.val := by
    intro u us' hu
    apply isGlued_of_isOperator
    obtain hop | ⟨-, hop⟩ := hstop u us' hu
    · exact isOperator_of_isOp hop
    · exact isOperator_of_isOp hop
  have hkeyword : keywordAt (t :: run) = some "REM" := by
    rw [← keywordAt_append hend, ← hrun]
    exact hword
  refine ⟨t :: run, 0, congrArg (t :: ·) hrun, ?_, fun _ _ _ => ⟨rfl, fun _ => rfl⟩⟩
  rw [← hsame]
  exact .remark (hts.forms (.inr (.inr hword))) hkeyword hall

theorem commandWith_sound (hinner : Sound forms depth inner) :
    Sound forms (depth + 1) (commandWith lineEnd inner) := by
  intro inBlock ts c rest hts h
  cases ts with
  | nil => cases h
  | cons t us =>
    cases hopen : t.isOp .openParen with
    | true =>
      rw [commandWith_block hopen] at h
      obtain ⟨_, _, run, -, hrun, hspells⟩ := block_sound inBlock hinner hopen
        (hts.of_suffix (List.suffix_cons t us)) h
      exact ⟨run, 0, hrun, hspells, fun _ _ _ => ⟨rfl, fun _ => rfl⟩⟩
    | false =>
      by_cases hform : StartsForm (t :: us)
      · obtain hword | hword | hword := hform
        · rw [commandWith_if hopen hword] at h
          exact conditional_sound hinner hts hword h
        · rw [commandWith_for hopen hword] at h
          exact loop_sound hinner hts hword h
        · rw [commandWith_rem hopen hword] at h
          cases h
          exact remark_sound hts hword
      · cases hop : t.isOperator with
        | true => cases (commandWith_operator hop hopen us).symm.trans h
        | false =>
          rw [commandWith_simple hopen hform] at h
          obtain ⟨⟨s, rest1⟩, hs, h1⟩ := Except.bind_eq_ok_iff.mp h
          cases h1
          obtain ⟨run, rfl, -, hfollows, htake⟩ := simple_ok hop hs
          rw [startsForm_append hfollows.unglued] at hform
          have hall := htake [] (.nil _)
          rw [List.append_nil] at hall
          exact ⟨t :: run, _, rfl, .simple hop hform hall, fun u us' hu => ⟨rfl, (hfollows u us' hu).2.2⟩⟩

/-- **What was read is spelled.** -/
theorem commandReader_sound (forms : Bool) (lineEnd depth : Nat) :
    Sound forms depth (commandReader lineEnd depth) := by
  induction depth with
  | zero =>
    intro inBlock ts c rest _ h
    cases h
  | succ depth ih => exact commandWith_sound ih

end

/-! ## Completeness -/

/-- A command can start with `t`. -/
def StartsCommand (t : Token) : Prop := t.isOperator = false ∨ t.isOp .openParen = true

/-- Does the part start with a command, with nothing before it? -/
def Part.startsAtOnce : Part → Bool
  | .lines _ | .body => false
  | _ => true

theorem Spells.head {depth : Nat} {inBlock : Bool} {part : Part} {n : Int} {run : List Token} {c : Command}
    (h : Spells false depth inBlock part n run c) (hpart : part.startsAtOnce = true) :
    ∃ t us, run = t :: us ∧ StartsCommand t := by
  induction h with
  | simple hstart => exact ⟨_, _, rfl, .inl hstart⟩
  | block hopen | emptyBlock hopen => exact ⟨_, _, rfl, .inr hopen⟩
  | remark hforms | ifThen hforms | ifElse hforms | loop hforms => cases hforms
  | enclosed | inline | lines => cases hpart
  | stage _ ih | link _ ih | item _ ih => exact ih rfl
  | pipe _ _ _ ih | join _ _ _ ih | both _ _ _ ih =>
    obtain ⟨t, us, rfl, ht⟩ := ih rfl
    exact ⟨t, _, rfl, ht⟩

theorem expectOperand_ok {t : Token} (h : StartsCommand t) (op : Operator) (place : Nat) (us : List Token) :
    expectOperand op place (t :: us) = .ok () := by
  rw [expectOperand]
  obtain hop | hopen := h
  · rw [hop]
    rfl
  · rw [hopen, Bool.not_true, Bool.and_false]
    rfl

theorem pipelineFrom_stop {command : CommandReader} {inBlock : Bool} {left : Command} {rest : List Token}
    (h : ∀ t us, rest = t :: us → t.isOp .pipe = false) :
    bare (pipelineFrom command inBlock left rest) = .ok (left, rest) := by
  cases rest with
  | nil => exact pipelineFrom_nil _ _ _
  | cons t us =>
    rw [pipelineFrom_cons, h t us rfl]
    rfl

theorem chainFrom_stop {command : CommandReader} {inBlock : Bool} {left : Command} {rest : List Token}
    (h : ∀ t us, rest = t :: us → (t.isOp .andThen || t.isOp .orElse) = false) :
    bare (chainFrom command inBlock left rest) = .ok (left, rest) := by
  cases rest with
  | nil => exact chainFrom_nil _ _ _
  | cons t us =>
    rw [chainFrom_cons, h t us rfl]
    rfl

/-- Line breaks before a token that is none are passed over. -/
theorem itemStart_append {oneLine : Bool} {breaks us : List Token} (hbreaks : Breaks oneLine breaks)
    (hus : ∀ t vs, us = t :: vs → t.isOp .lineBreak = false) : itemStart oneLine (breaks ++ us) = us := by
  cases oneLine with
  | true =>
    rw [hbreaks.2 rfl]
    rfl
  | false =>
    rw [itemStart, List.dropWhile_append_of_pos hbreaks.1]
    cases us with
    | nil => rfl
    | cons t vs => simp [hus t vs rfl]

/-- How a token that starts a command differs from what stands between commands. -/
theorem StartsCommand.plain {t : Token} (h : StartsCommand t) (oneLine : Bool) :
    t.isOp .lineBreak = false ∧ endsSequence oneLine t = false ∧
      (t.isOperator && !t.isOp .openParen) = false := by
  obtain ⟨lexeme, start, stop, leading⟩ := t
  cases lexeme with
  | word text quoted => simp [endsSequence, Token.isOp, Token.isOperator]
  | redirect sign => simp [endsSequence, Token.isOp, Token.isOperator]
  | operator op =>
    obtain hop | hopen := h
    · cases hop
    · cases op with
      | openParen => simp [endsSequence, Token.isOp, Token.isOperator]
      | _ => cases hopen

section

variable (lineEnd depth : Nat) (inBlock : Bool) (n : Int) (run : List Token) (c : Command)

/-- The reader of a part takes `run` for `c` and goes on with what follows. -/
def ReadBack : Part → Prop
  | .command => ∀ rest, Follows n rest →
      bare (commandReader lineEnd depth inBlock (run ++ rest)) = .ok (c, rest)
  | .pipeline => ∀ rest, Follows n rest →
      bare (pipeline (commandReader lineEnd depth) inBlock (run ++ rest)) =
        bare (pipelineFrom (commandReader lineEnd depth) inBlock c rest)
  | .chain => ∀ rest, Follows n rest → Stops .pipeline n rest →
      bare (chain (commandReader lineEnd depth) inBlock (run ++ rest)) =
        bare (chainFrom (commandReader lineEnd depth) inBlock c rest)
  | .sequence oneLine => ∀ breaks rest, Breaks oneLine breaks → Follows n rest → Stops .chain n rest →
      bare (sequenceFrom (commandReader lineEnd depth) inBlock oneLine none (breaks ++ (run ++ rest))) =
        afterItem (commandReader lineEnd depth) inBlock oneLine c rest
  | .lines oneLine => ∀ rest, Follows n rest → (∀ t us, rest = t :: us → t.isOp .closeParen = true) →
      bare (sequenceFrom (commandReader lineEnd depth) inBlock oneLine none (run ++ rest)) = .ok (some c, rest)
  | .body => True

end

section

variable {lineEnd depth : Nat} {inBlock oneLine : Bool} {n : Int} {run rest breaks : List Token} {c : Command}

/-- One more command of a sequence is read. -/
theorem ReadBack.item (h : ReadBack lineEnd depth inBlock n run c .chain)
    (hhead : ∃ t us, run = t :: us ∧ StartsCommand t) (prev : Option Command)
    (hbreaks : Breaks oneLine breaks) (hfollows : Follows n rest) (hstop : Stops .chain n rest) :
    bare (sequenceFrom (commandReader lineEnd depth) inBlock oneLine prev (breaks ++ (run ++ rest))) =
      afterItem (commandReader lineEnd depth) inBlock oneLine (joinBoth prev c) rest := by
  obtain ⟨t, us, rfl, ht⟩ := hhead
  obtain ⟨hbreak, hend, hop⟩ := ht.plain oneLine
  have hpipe : Stops .pipeline n rest := by
    intro t us hrest
    obtain ⟨hgo, hclose⟩ := hstop t us hrest
    simp only [Part.goesOn, Bool.or_eq_false_iff] at hgo
    exact ⟨hgo.1.1, hclose⟩
  have hjoin : ∀ t us, rest = t :: us → (t.isOp .andThen || t.isOp .orElse) = false := by
    intro t us hrest
    have hgo := (hstop t us hrest).1
    simp only [Part.goesOn, Bool.or_eq_false_iff] at hgo
    simp [hgo]
  have hchain : bare (chain (commandReader lineEnd depth) inBlock (t :: (us ++ rest))) = .ok (c, rest) :=
    (h rest hfollows hpipe).trans (chainFrom_stop hjoin)
  rw [sequenceFrom_eq, itemStart_append hbreaks (by intro t' vs heq; cases heq; exact hbreak)]
  simp only [List.cons_append, hend, hop, hchain]
  rfl

/-- What joins commands follows any command. -/
theorem follows_of_isOp {t : Token} {op : Operator} (h : t.isOp op = true) (hopen : op ≠ .openParen)
    (hclose : op ≠ .closeParen) (m : Int) (us : List Token) : Follows m (t :: us) := by
  intro t' us' heq
  cases heq
  refine ⟨isOperator_of_isOp h, isOp_eq_false h hopen, fun hparen => ?_⟩
  cases (isOp_eq_false h hclose).symm.trans hparen

theorem separates_cases {t : Token} (h : separates oneLine t = true) :
    t.isOp .both = true ∨ t.isOp .lineBreak = true := by
  simp only [separates, Bool.or_eq_true, Bool.and_eq_true] at h
  exact h.imp_right And.left

theorem follows_of_separates {t : Token} (h : separates oneLine t = true) (m : Int) (us : List Token) :
    Follows m (t :: us) ∧ Stops .chain m (t :: us) := by
  obtain h | h := separates_cases h <;>
    exact ⟨follows_of_isOp h (by decide) (by decide) m us, .cons (by simp [Part.goesOn, isOp_eq_false h])
      fun hclose => by simp [isOp_eq_false h] at hclose⟩

/-- A sequence ends at the end of the tokens and before a closing parenthesis. -/
theorem sequenceFrom_end (command : CommandReader) (prev : Option Command)
    (hbreaks : Breaks oneLine breaks) (hclose : ∀ t us, rest = t :: us → t.isOp .closeParen = true) :
    bare (sequenceFrom command inBlock oneLine prev (breaks ++ rest)) = .ok (prev, rest) := by
  rw [sequenceFrom_eq, itemStart_append hbreaks fun t us h => isOp_eq_false (hclose t us h) (by decide)]
  cases rest with
  | nil => rfl
  | cons t us => simp [endsSequence, hclose t us rfl]

theorem afterItem_end (command : CommandReader) {m : Int} {ending : List Token}
    (hending : Ending oneLine m n ending) (hclose : ∀ t us, rest = t :: us → t.isOp .closeParen = true) :
    afterItem command inBlock oneLine c (ending ++ rest) = .ok (some c, rest) := by
  obtain ⟨rfl, -⟩ | ⟨⟨sign, breaks, rfl, hsign, hbreaks⟩, -⟩ := hending
  · cases rest with
    | nil => rfl
    | cons t us =>
      have hsep : separates oneLine t = false := by simp [separates, isOp_eq_false (hclose t us rfl)]
      rw [List.nil_append, afterItem, hsep]
      rfl
  · rw [List.cons_append, afterItem, if_pos hsign, sequenceFrom_end command (some c) hbreaks hclose]

end

/-- A block is read when the sequence in it is read up to its closing parenthesis. -/
theorem readBack_block {lineEnd depth : Nat} {inBlock : Bool} {opened closed : Token} {inner after : List Token}
    {body : Option Command} {rs : List Redirection} (hopen : opened.isOp .openParen = true)
    (hclose : closed.isOp .closeParen = true) (hafter : bare (redirectionsFrom after) = .ok (rs, []))
    (hinner : ∀ us, bare (sequenceFrom (commandReader lineEnd depth) true false none (inner ++ closed :: us)) =
      .ok (body, closed :: us)) :
    ReadBack lineEnd (depth + 1) inBlock 0 (opened :: (inner ++ closed :: after))
      (.block (body.getD (.simple .empty)) rs) .command := by
  intro rest hfollows
  obtain ⟨run, hrun, -, htake⟩ := redirectionsFrom_run hafter
  rw [List.append_nil] at hrun
  subst hrun
  rw [commandReader, List.cons_append, List.append_assoc, List.cons_append, commandWith_block hopen, block_eq,
    hinner]
  simp [hclose, htake rest hfollows]

/-- **What is spelled is read.** -/
theorem Spells.readBack {depth : Nat} {inBlock : Bool} {part : Part} {n : Int} {run : List Token} {c : Command}
    (h : Spells false depth inBlock part n run c) (lineEnd : Nat) :
    ReadBack lineEnd depth inBlock n run c part := by
  induction h with
  | remark hforms | ifThen hforms | ifElse hforms | loop hforms => cases hforms
  | enclosed | inline => trivial
  | @simple depth inBlock t us c hstart hform hread =>
    intro rest hfollows
    obtain ⟨run, hrun, -, -, htake⟩ := simple_ok hstart hread
    rw [List.append_nil] at hrun
    subst hrun
    have hopen : t.isOp .openParen = false := by
      cases hop : t.isOp .openParen with
      | false => rfl
      | true => cases hstart.symm.trans (isOperator_of_isOp hop)
    rw [← startsForm_append hfollows.unglued] at hform
    rw [commandReader, List.cons_append, commandWith_simple hopen hform, htake rest hfollows]
    rfl
  | block hopen _ hclose hafter ih =>
    refine readBack_block hopen hclose hafter fun us => ih _ ?_ ?_
    · intro t us heq
      cases heq
      exact ⟨isOperator_of_isOp hclose, isOp_eq_false hclose (by decide), fun _ => rfl⟩
    · intro t us heq
      cases heq
      exact hclose
  | emptyBlock hopen hbreaks hclose hafter =>
    refine readBack_block hopen hclose hafter fun us => sequenceFrom_end _ none hbreaks ?_
    intro t us heq
    cases heq
    exact hclose
  | @stage depth inBlock n run c hrun ih =>
    intro rest hfollows
    rw [pipeline_eq, ih rest hfollows]
    rfl
  | @pipe depth inBlock m left l bar n right r hleft hbar hright ihl ihr =>
    intro rest hfollows
    obtain ⟨t, us, rfl, ht⟩ := hright.head rfl
    have hleftEnds : Follows m (bar :: ((t :: us) ++ rest)) := follows_of_isOp hbar (by decide) (by decide) m _
    rw [List.append_assoc, List.cons_append, ihl _ hleftEnds, pipelineFrom_cons, if_pos hbar,
      List.cons_append, expectOperand_ok ht, ← List.cons_append, Except.bind_ok, ihr rest hfollows]
    rfl
  | @link depth inBlock n run c hrun ih =>
    intro rest hfollows hstop
    rw [chain_eq, ih rest hfollows, pipelineFrom_stop fun t us hrest => (hstop t us hrest).1]
    rfl
  | @join depth inBlock m left l sign n right r hleft hsign hright ihl ihr =>
    intro rest hfollows hstop
    obtain ⟨t, us, rfl, ht⟩ := hright.head rfl
    have hnext : Follows m (sign :: (t :: us ++ rest)) ∧ Stops .pipeline m (sign :: (t :: us ++ rest)) := by
      obtain h | h := Bool.or_eq_true_iff.mp hsign <;>
        exact ⟨follows_of_isOp h (by decide) (by decide) m _, .cons (isOp_eq_false h (by decide))
          fun hclose => by simp [isOp_eq_false h] at hclose⟩
    rw [List.append_assoc, List.cons_append, ihl _ hnext.1 hnext.2, chainFrom_cons, if_pos hsign,
      List.cons_append, expectOperand_ok ht, ← List.cons_append, Except.bind_ok, ihr rest hfollows,
      pipelineFrom_stop fun t us hrest => (hstop t us hrest).1]
    rfl
  | @item depth inBlock oneLine n run c hrun ih =>
    intro breaks rest hbreaks hfollows hstop
    exact ReadBack.item ih (hrun.head rfl) none hbreaks hfollows hstop
  | @both depth inBlock oneLine m left l between n right r hleft hbetween hright ihl ihr =>
    intro breaks rest hbreaks hfollows hstop
    obtain ⟨sign, breaks', rfl, hsign, hbreaks'⟩ := hbetween
    obtain ⟨hsf, hss⟩ := follows_of_separates hsign m (breaks' ++ (right ++ rest))
    have hl := ihl breaks _ hbreaks hsf hss
    rw [afterItem, if_pos hsign, ReadBack.item ihr (hright.head rfl) (some l) hbreaks' hfollows hstop] at hl
    rw [List.append_assoc, List.cons_append, List.cons_append, List.append_assoc]
    exact hl
  | @lines depth inBlock oneLine breaks m run c n ending hbreaks hrun hending ih =>
    intro rest hfollows hclose
    have hnext : Follows m (ending ++ rest) ∧ Stops .chain m (ending ++ rest) := by
      obtain ⟨rfl, rfl⟩ | ⟨⟨sign, breaks', rfl, hsign, -⟩, -⟩ := hending
      · refine ⟨hfollows, fun t us hrest => ⟨?_, (hfollows t us hrest).2.2⟩⟩
        simp [Part.goesOn, isOp_eq_false (hclose t us hrest)]
      · exact follows_of_separates hsign m _
    rw [List.append_assoc, List.append_assoc, ih breaks _ hbreaks hnext.1 hnext.2]
    exact afterItem_end _ hending hclose

/-! ## Whole lines -/

section

variable {ts : List Token} {c : Command}

/-- A command that was read is spelled by all the tokens. -/
theorem spells_of_ofTokens? {forms : Bool} (hts : Allowed forms ts) (h : Command.ofTokens? ts = .ok (some c)) :
    ∃ n, Spells forms maxDepth false (.lines false) n ts c := by
  rw [ofTokens?_eq] at h
  obtain ⟨⟨found, rest⟩, hread, h1⟩ := Except.bind_eq_ok_iff.mp h
  cases rest with
  | cons t us => cases h1
  | nil =>
    cases h1
    obtain ⟨c', hc', run, n, hrun, hspells, -⟩ | ⟨hnone, -⟩ :=
      sequence_sound (commandReader_sound forms _ maxDepth) hts hread
    · cases hc'
      rw [List.append_nil] at hrun
      exact ⟨n, hrun ▸ hspells⟩
    · cases hnone

theorem breaks_of_ofTokens? (h : Command.ofTokens? ts = .ok none) : Breaks false ts := by
  rw [ofTokens?_eq] at h
  obtain ⟨⟨found, rest⟩, hread, h1⟩ := Except.bind_eq_ok_iff.mp h
  cases rest with
  | cons t us => cases h1
  | nil =>
    cases h1
    obtain ⟨c', hc', -⟩ | ⟨-, breaks, hbreaks, hall, -⟩ :=
      sequence_sound (commandReader_sound true _ maxDepth) (.inl rfl) hread
    · cases hc'
    · rw [List.append_nil] at hbreaks
      exact hbreaks ▸ hall

theorem Spells.ofTokens? {n : Int} (h : Spells false maxDepth false (.lines false) n ts c) :
    Command.ofTokens? ts = .ok (some c) := by
  have hread := h.readBack (lineEnd ts) [] (.nil n) (by simp)
  rw [List.append_nil] at hread
  rw [ofTokens?_eq, hread]
  rfl

theorem ofTokens?_of_breaks (h : Breaks false ts) : Command.ofTokens? ts = .ok none := by
  have hread : bare (sequenceFrom (commandReader (lineEnd ts) maxDepth) false false none (ts ++ [])) =
      .ok (none, []) := sequenceFrom_end _ none h (by simp)
  rw [List.append_nil] at hread
  rw [ofTokens?_eq, hread]
  rfl

end

end BatchShell.Parser
