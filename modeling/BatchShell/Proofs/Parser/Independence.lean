import BatchShell.Expansion.Percent
import BatchShell.Proofs.Parser.Grammar

/-!
# Values do not change the structure of a line

Expansion puts values into the words of a line and leaves everything else as it is. A reader asks of a word
only whether it is a word and whether it is glued to what stands before it, except where a command starts:
there the words `IF`, `FOR` and `REM` start forms of their own. `FormFree` says that none of them stands
where a command starts, and `Place` follows along which tokens these places are.

Two lists of tokens that differ in the texts of words only (`Twins`) are read in step: the readers make the
same decisions, so that they fail alike or return commands of the same `outline`.

* `Agree`: the results of two readers that ran in step.
* `commandReader_agree`, `sequenceFrom_agree`: one reader on two lists of tokens.
* `structure_of_line`: one line in two states. The only text of a word that shows in an error is that of a
  word directly behind a block.
-/
namespace BatchShell

/-! ## Outlines -/

/-- A lexeme without the text of a word. -/
def Lexeme.outline : Lexeme → Lexeme
  | .word _ quoted => .word "" quoted
  | other => other

/-- A token without the text of a word; its place and spacing stay. -/
def Token.outline (t : Token) : Token := { t with lexeme := t.lexeme.outline }

/-- A target without the name of its file. -/
def RedirectTarget.outline : RedirectTarget → RedirectTarget
  | .file _ => .file ""
  | .handle number => .handle number

/-- A redirection without the name of its file. -/
def Redirection.outline (r : Redirection) : Redirection := { r with target := r.target.outline }

/-- How many arguments a command has, and which redirections. -/
def SimpleCommand.outline (c : SimpleCommand) : SimpleCommand :=
  ⟨"", c.args.map fun _ => "", "", c.redirections.map (·.outline)⟩

/-- A command without the texts of its simple commands and files. -/
def Command.outline : Command → Command
  | .simple c => .simple c.outline
  | .block body rs => .block body.outline (rs.map (·.outline))
  | .ifThen asked body => .ifThen asked body.outline
  | .ifElse asked body other => .ifElse asked body.outline other.outline
  | .loop head body => .loop head body.outline
  | .pipe left right => .pipe left.outline right.outline
  | .both left right => .both left.outline right.outline
  | .andThen left right => .andThen left.outline right.outline
  | .orElse left right => .orElse left.outline right.outline

namespace Parser

/-! ## Where commands start -/

/-- Where a token of a line without conditions, loops and remarks stands. -/
inductive Place where
  /-- Where a command starts. -/
  | start
  /-- In a simple command of which so many literal parentheses are open. -/
  | inside (parens : Nat)
  /-- Behind the closing parenthesis of a block. -/
  | behind
  deriving DecidableEq

/-- The place behind a token. -/
def Place.after (place : Place) (t : Token) : Place :=
  match t.lexeme, place with
  | .operator .openParen, .inside n => .inside (n + 1)
  | .operator .openParen, place => place
  | .operator .closeParen, .inside (n + 1) => .inside n
  | .operator .closeParen, _ => .behind
  | .operator _, _ => .start
  | _, .start => .inside 0
  | _, place => place

/-- No word where a command starts is `IF`, `FOR` or `REM`. -/
def FormFree : Place → List Token → Prop
  | _, [] => True
  | place, t :: ts => (place = .start → ¬ StartsForm (t :: ts)) ∧ FormFree (place.after t) ts

instance FormFree.decide : (place : Place) → (ts : List Token) → Decidable (FormFree place ts)
  | _, [] => isTrue trivial
  | place, t :: ts =>
    have : Decidable (FormFree (place.after t) ts) := FormFree.decide (place.after t) ts
    inferInstanceAs (Decidable ((place = .start → ¬ StartsForm (t :: ts)) ∧ FormFree (place.after t) ts))

/-- Tokens that differ in the texts of words only, and start no form. -/
inductive Twins : Place → List Token → List Token → Prop where
  | nil {place} : Twins place [] []
  | cons {place t t' ts ts'} (hsame : t.outline = t'.outline)
      (hform : place = .start → ¬ StartsForm (t :: ts) ∧ ¬ StartsForm (t' :: ts'))
      (hrest : Twins (place.after t) ts ts') : Twins place (t :: ts) (t' :: ts')

/-- Tokens of one outline are equal, or words in one place. -/
theorem outline_cases {t t' : Token} (h : t.outline = t'.outline) :
    t' = t ∧ t.isWord = false ∨ ∃ text text' quoted start stop leading,
      t = ⟨.word text quoted, start, stop, leading⟩ ∧ t' = ⟨.word text' quoted, start, stop, leading⟩ := by
  obtain ⟨lexeme, start, stop, leading⟩ := t
  obtain ⟨lexeme', start', stop', leading'⟩ := t'
  simp only [Token.outline, Token.mk.injEq] at h
  obtain ⟨hlexeme, rfl, rfl, rfl⟩ := h
  cases lexeme with
  | word text quoted =>
    cases lexeme' with
    | word text' quoted' =>
      cases hlexeme
      exact .inr ⟨text, text', quoted, start, stop, leading, rfl, rfl⟩
    | operator op => cases hlexeme
    | redirect sign => cases hlexeme
  | operator op =>
    cases lexeme' with
    | operator op' =>
      cases hlexeme
      exact .inl ⟨rfl, rfl⟩
    | word text quoted => cases hlexeme
    | redirect sign => cases hlexeme
  | redirect sign =>
    cases lexeme' with
    | redirect sign' =>
      cases hlexeme
      exact .inl ⟨rfl, rfl⟩
    | word text quoted => cases hlexeme
    | operator op => cases hlexeme

section

variable {t t' : Token} (h : t.outline = t'.outline)
include h

theorem isOp_outline (op : Operator) : t'.isOp op = t.isOp op := by
  obtain ⟨rfl, -⟩ | ⟨_, _, _, _, _, _, rfl, rfl⟩ := outline_cases h <;> rfl

theorem isOperator_outline : t'.isOperator = t.isOperator := by
  obtain ⟨rfl, -⟩ | ⟨_, _, _, _, _, _, rfl, rfl⟩ := outline_cases h <;> rfl

theorem isWord_outline : t'.isWord = t.isWord := by
  obtain ⟨rfl, -⟩ | ⟨_, _, _, _, _, _, rfl, rfl⟩ := outline_cases h <;> rfl

theorem isGlued_outline : isGlued t' = isGlued t := by
  obtain ⟨rfl, -⟩ | ⟨_, _, _, _, _, _, rfl, rfl⟩ := outline_cases h <;> rfl

theorem after_outline (place : Place) : place.after t' = place.after t := by
  obtain ⟨rfl, -⟩ | ⟨_, _, _, _, _, _, rfl, rfl⟩ := outline_cases h
  · rfl
  · cases place <;> rfl

theorem start_outline : t'.start = t.start ∧ t'.stop = t.stop := by
  obtain ⟨rfl, -⟩ | ⟨_, _, _, _, _, _, rfl, rfl⟩ := outline_cases h <;> exact ⟨rfl, rfl⟩

end

theorem after_eq_self {place : Place} (hplace : place ≠ .start) {t : Token} (h : t.isOperator = false) :
    place.after t = place := by
  obtain ⟨lexeme, start, stop, leading⟩ := t
  cases lexeme with
  | operator op => cases h
  | word text quoted | redirect sign =>
    cases place with
    | start => cases hplace rfl
    | inside parens | behind => rfl

/-- The place behind an operator that joins or separates commands is where a command starts. -/
theorem after_of_isOp {t : Token} {op : Operator} (h : t.isOp op = true) (hopen : op ≠ .openParen)
    (hclose : op ≠ .closeParen) (place : Place) : place.after t = .start := by
  rw [Token.isOp, beq_iff_eq] at h
  cases op with
  | openParen => cases hopen rfl
  | closeParen => cases hclose rfl
  | _ => cases place <;> simp only [Place.after, h]

/-- A word or a redirection starts a simple command. -/
theorem after_start {t : Token} (h : t.isOperator = false) : Place.start.after t = .inside 0 := by
  obtain ⟨lexeme, start, stop, leading⟩ := t
  cases lexeme with
  | operator op => cases h
  | word text quoted | redirect sign => rfl

theorem after_of_close {t : Token} (h : t.isOp .closeParen = true) :
    Place.start.after t = .behind ∧ Place.behind.after t = .behind := by
  rw [Token.isOp, beq_iff_eq] at h
  simp only [Place.after, h, and_self]

theorem after_of_open {t : Token} (h : t.isOp .openParen = true) : Place.start.after t = .start := by
  rw [Token.isOp, beq_iff_eq] at h
  simp only [Place.after, h]

/-! ## Running in step -/

namespace Twins

variable {place : Place} {ts ts' : List Token}

/-- Tokens of one outline, each list without forms. -/
theorem of_outline (h : ts.map (·.outline) = ts'.map (·.outline)) (hts : FormFree place ts)
    (hts' : FormFree place ts') : Twins place ts ts' := by
  induction ts generalizing place ts' with
  | nil =>
    cases List.map_eq_nil_iff.mp h.symm
    exact .nil
  | cons t ts ih =>
    obtain ⟨t', us', rfl, ht, hus⟩ := List.map_eq_cons_iff.mp h.symm
    refine .cons ht.symm (fun hstart => ⟨hts.1 hstart, hts'.1 hstart⟩) (ih hus.symm hts.2 ?_)
    rw [← after_outline ht.symm]
    exact hts'.2

theorem length_eq (h : Twins place ts ts') : ts.length = ts'.length := by
  induction h with
  | nil => rfl
  | cons _ _ _ ih => rw [List.length_cons, List.length_cons, ih]

/-- Words glued together do not leave a place inside or behind a command. -/
theorem dropWhile_isGlued (h : Twins place ts ts') (hplace : place ≠ .start) :
    Twins place (ts.dropWhile isGlued) (ts'.dropWhile isGlued) := by
  induction h with
  | nil => exact .nil
  | @cons place t t' ts ts' hsame hform hrest ih =>
    rw [List.dropWhile_cons, List.dropWhile_cons, isGlued_outline hsame]
    split
    · rename_i hglued
      have hword : t.isWord = true := (Bool.and_eq_true_iff.mp hglued).1
      rw [after_eq_self hplace (isOperator_of_isWord hword)] at ih
      exact ih hplace
    · exact .cons hsame hform hrest

/-- Line breaks do not leave the place where a command starts. -/
theorem dropWhile_lineBreak (h : Twins place ts ts') (hplace : place = .start) :
    Twins .start (ts.dropWhile (·.isOp .lineBreak)) (ts'.dropWhile (·.isOp .lineBreak)) := by
  induction h with
  | nil => exact .nil
  | @cons place t t' ts ts' hsame hform hrest ih =>
    subst hplace
    rw [List.dropWhile_cons, List.dropWhile_cons, isOp_outline hsame]
    split
    · rename_i hbreak
      refine ih ?_
      exact after_of_isOp hbreak (by decide) (by decide) _
    · exact .cons hsame hform hrest

/-- What may follow a simple command may follow a block. -/
theorem behind {parens : Nat} (h : Twins (.inside parens) ts ts') (hfollows : Follows parens ts) :
    Twins .behind ts ts' := by
  cases h with
  | nil => exact .nil
  | @cons _ t t' us us' hsame hform hrest =>
    obtain ⟨hop, hopen, hclose⟩ := hfollows t us rfl
    refine .cons hsame (by simp) ?_
    obtain ⟨lexeme, start, stop, leading⟩ := t
    cases lexeme with
    | word text quoted => cases hop
    | redirect sign => cases hop
    | operator op =>
      cases op with
      | openParen => cases hopen
      | closeParen =>
        have hzero : parens = 0 := by simpa using hclose rfl
        subst hzero
        exact hrest
      | _ => exact hrest

end Twins

/-- Two readings that ran in step: equal errors, or results that correspond with tokens behind them that do. -/
def Agree {α : Type} (same : α → α → Prop) (place : Place) :
    Reading (α × List Token) → Reading (α × List Token) → Prop
  | .ok (a, rest), .ok (a', rest') => same a a' ∧ Twins place rest rest'
  | .error e, .error e' => e' = e
  | _, _ => False

theorem Agree.bind {α β : Type} {same : α → α → Prop} {same' : β → β → Prop} {place place' : Place}
    {x x' : Reading (α × List Token)} {f f' : α × List Token → Reading (β × List Token)}
    (h : Agree same place x x')
    (hnext : ∀ a a' rest rest', x = .ok (a, rest) → same a a' → Twins place rest rest' →
      Agree same' place' (f (a, rest)) (f' (a', rest'))) : Agree same' place' (x >>= f) (x' >>= f') := by
  match x, x', h with
  | .ok (a, rest), .ok (a', rest'), h => exact hnext a a' rest rest' rfl h.1 h.2
  | .error e, .error e', h => exact h

/-! ## Simple commands in step -/

namespace SimpleScan

/-- Scans that have read tokens of one outline. -/
structure Alike (s s' : SimpleScan) : Prop where
  name : s'.name.isSome = s.name.isSome
  args : s'.args.length = s.args.length
  redirections : s'.redirections.map (·.outline) = s.redirections.map (·.outline)
  current : s'.current.isSome = s.current.isSome
  parens : s'.parens = s.parens

variable {s s' : SimpleScan}

theorem Alike.closeWord (h : Alike s s') : Alike s.closeWord s'.closeWord := by
  obtain ⟨name, args, raw, rs, current, parens⟩ := s
  obtain ⟨name', args', raw', rs', current', parens'⟩ := s'
  obtain ⟨hname, hargs, hrs, hcurrent, hparens⟩ := h
  cases current with
  | none =>
    obtain rfl : current' = none := by simpa using hcurrent
    exact ⟨hname, hargs, hrs, rfl, hparens⟩
  | some word =>
    obtain ⟨word', rfl⟩ := Option.isSome_iff_exists.mp hcurrent
    cases name with
    | none =>
      obtain rfl : name' = none := by simpa using hname
      exact ⟨rfl, hargs, hrs, rfl, hparens⟩
    | some first =>
      obtain ⟨first', rfl⟩ := Option.isSome_iff_exists.mp hname
      exact ⟨rfl, congrArg (· + 1) hargs, hrs, rfl, hparens⟩

theorem Alike.addText (h : Alike s s') (leading text text' : String) :
    Alike (s.addText leading text) (s'.addText leading text') := by
  have hclosed := h.closeWord
  obtain ⟨name, args, raw, rs, current, parens⟩ := s
  obtain ⟨name', args', raw', rs', current', parens'⟩ := s'
  obtain ⟨hname, hargs, hrs, hcurrent, hparens⟩ := h
  cases current with
  | none =>
    obtain rfl : current' = none := by simpa using hcurrent
    exact ⟨hname, hargs, hrs, rfl, hparens⟩
  | some word =>
    obtain ⟨word', rfl⟩ := Option.isSome_iff_exists.mp hcurrent
    simp only [SimpleScan.addText]
    split
    · exact ⟨hname, hargs, hrs, rfl, hparens⟩
    · exact ⟨hclosed.name, hclosed.args, hclosed.redirections, rfl, hclosed.parens⟩

theorem Alike.addRedirection (h : Alike s s') {r r' : Redirection} (hr : r'.outline = r.outline) :
    Alike (s.addRedirection r) (s'.addRedirection r') := by
  obtain ⟨hname, hargs, hrs, hcurrent, hparens⟩ := h.closeWord
  exact ⟨hname, hargs, congrArg₂ List.cons hr hrs, hcurrent, hparens⟩

theorem Alike.openLiteral (h : Alike s s') (leading : String) :
    Alike (s.openLiteral leading) (s'.openLiteral leading) := by
  obtain ⟨hname, hargs, hrs, hcurrent, -⟩ := h.addText leading "(" "("
  exact ⟨hname, hargs, hrs, hcurrent, congrArg (· + 1) h.parens⟩

theorem Alike.closeLiteral (h : Alike s s') (leading : String) :
    Alike (s.closeLiteral leading) (s'.closeLiteral leading) := by
  obtain ⟨hname, hargs, hrs, hcurrent, -⟩ := h.addText leading ")" ")"
  exact ⟨hname, hargs, hrs, hcurrent, congrArg (· - 1) h.parens⟩

theorem Alike.finish (h : Alike s s') : s'.finish.outline = s.finish.outline := by
  obtain ⟨-, hargs, hrs, -, -⟩ := h.closeWord
  simp only [SimpleScan.finish, SimpleCommand.outline, List.map_reverse, hrs, List.map_const', hargs]

end SimpleScan

theorem redirectTarget_agree {place : Place} {ts ts' : List Token} (h : Twins place ts ts')
    (hplace : place ≠ .start) (t : Token) (sign : RedirectSign) :
    Agree (fun r r' : Redirection => r'.outline = r.outline) place (bare (redirectTarget t sign ts))
      (bare (redirectTarget t sign ts')) := by
  obtain ⟨d, hcopy, heq⟩ | ⟨hcopy, u, us, rfl, hword, heq⟩ | ⟨hcopy, hno, heq⟩ := redirectTarget_cases t sign ts
  · rw [heq, redirectTarget_copy hcopy]
    exact ⟨rfl, h⟩
  · cases h with
    | @cons _ _ u' _ us' hsame hform hrest =>
      rw [heq, redirectTarget_file hcopy t ((isWord_outline hsame).trans hword)]
      rw [after_eq_self hplace (isOperator_of_isWord hword)] at hrest
      exact ⟨rfl, hrest.dropWhile_isGlued hplace⟩
  · rw [heq, redirectTarget_none hcopy t]
    · exact rfl
    · intro u' us' hcons
      subst hcons
      cases h with
      | cons hsame hform hrest => exact (isWord_outline hsame).trans (hno _ _ rfl)

/-- Two simple commands have one outline. -/
abbrev SameSimple (c c' : SimpleCommand) : Prop := c'.outline = c.outline

/-- A simple command, token by token. -/
theorem simpleFrom_agree {s s' : SimpleScan} (hs : s.Alike s') {ts ts' : List Token}
    (h : Twins (.inside s.parens) ts ts') :
    Agree SameSimple .behind (bare (simpleFrom s ts)) (bare (simpleFrom s' ts')) := by
  obtain ⟨len, hlen⟩ : ∃ len, ts.length = len := ⟨_, rfl⟩
  induction len using Nat.strongRecOn generalizing s s' ts ts' with
  | _ len ih =>
    have hstop : Follows s.parens ts → Agree SameSimple .behind (.ok (s.finish, ts)) (.ok (s'.finish, ts')) :=
      fun hfollows => ⟨hs.finish, h.behind hfollows⟩
    cases h with
    | nil =>
      rw [simpleFrom_nil, simpleFrom_nil]
      exact ⟨hs.finish, .nil⟩
    | @cons _ t t' us us' hsame hform hrest =>
      have hus : us.length < len := by simp at hlen; omega
      obtain ⟨rfl, -⟩ | ⟨text, text', quoted, start, stop, leading, rfl, rfl⟩ := outline_cases hsame
      · obtain ⟨lexeme, start, stop, leading⟩ := t'
        rw [simpleFrom_cons, simpleFrom_cons]
        cases lexeme with
        | word text quoted => exact ih _ hus (hs.addText leading text text) (by simpa [Place.after] using hrest) rfl
        | redirect sign =>
          refine (redirectTarget_agree hrest (by simp [Place.after]) _ sign).bind ?_
          intro r r' rest rest' hread hr htwins
          have hle := of_bare hread
          refine ih _ (by omega) (hs.addRedirection hr) ?_ rfl
          rw [SimpleScan.addRedirection_parens]
          exact htwins
        | operator op =>
          cases op with
          | openParen => exact ih _ hus (hs.openLiteral leading) (by simpa [Place.after] using hrest) rfl
          | closeParen =>
            dsimp only
            rw [hs.parens]
            split
            · rename_i hpos
              refine ih _ hus (hs.closeLiteral leading) ?_ rfl
              obtain ⟨n, hn⟩ : ∃ n, s.parens = n + 1 := ⟨s.parens - 1, by omega⟩
              simpa [hn, Place.after] using hrest
            · rename_i hzero
              refine hstop fun u vs heq => ?_
              cases heq
              exact ⟨rfl, rfl, fun _ => by omega⟩
          | _ =>
            refine hstop fun u vs heq => ?_
            cases heq
            exact ⟨rfl, rfl, fun hclose => by cases hclose⟩
      · rw [simpleFrom_cons, simpleFrom_cons]
        exact ih _ hus (hs.addText leading text text') (by simpa [Place.after] using hrest) rfl

theorem redirectionsFrom_agree {ts ts' : List Token} (h : Twins .behind ts ts') :
    Agree (fun rs rs' : List Redirection => rs'.map (·.outline) = rs.map (·.outline)) .behind
      (bare (redirectionsFrom ts)) (bare (redirectionsFrom ts')) := by
  obtain ⟨len, hlen⟩ : ∃ len, ts.length = len := ⟨_, rfl⟩
  induction len using Nat.strongRecOn generalizing ts ts' with
  | _ len ih =>
    have htwins := h
    cases h with
    | nil =>
      rw [redirectionsFrom_nil]
      exact ⟨rfl, .nil⟩
    | @cons _ t t' us us' hsame hform hrest =>
      obtain ⟨rfl, -⟩ | ⟨text, text', quoted, start, stop, leading, rfl, rfl⟩ := outline_cases hsame
      · by_cases hsign : ∃ sign, t'.lexeme = .redirect sign
        · obtain ⟨sign, hsign⟩ := hsign
          have hbehind : Place.behind ≠ .start := by decide
          have hafter := after_eq_self hbehind (show t'.isOperator = false by rw [Token.isOperator, hsign])
          rw [hafter] at hrest
          rw [redirectionsFrom_redirect hsign, redirectionsFrom_redirect hsign]
          refine (redirectTarget_agree hrest hbehind t' sign).bind fun r r' rest rest' hread hr htwins' => ?_
          have hle := of_bare hread
          refine (ih _ (by simp at hlen; omega) htwins' rfl).bind fun rs rs' _ _ _ hrs hlast => ?_
          exact ⟨congrArg₂ List.cons hr hrs, hlast⟩
        · have hno : ∀ sign, t'.lexeme ≠ .redirect sign := fun sign heq => hsign ⟨sign, heq⟩
          rw [redirectionsFrom_stop hno, redirectionsFrom_stop hno]
          exact ⟨rfl, htwins⟩
      · rw [redirectionsFrom_stop (by simp), redirectionsFrom_stop (by simp)]
        exact ⟨rfl, htwins⟩

/-! ## Sequences in step -/

/-- Two commands have one outline. -/
abbrev SameCommand (c c' : Command) : Prop := c'.outline = c.outline

/-- A reader of commands makes the same decisions for tokens of one outline. -/
def InStep (command : CommandReader) : Prop :=
  ∀ inBlock ts ts', Twins .start ts ts' →
    Agree SameCommand .behind (bare (command inBlock ts)) (bare (command inBlock ts'))

theorem expectOperand_outline {ts ts' : List Token} (h : Twins .start ts ts') (op : Operator) (place : Nat) :
    expectOperand op place ts' = expectOperand op place ts := by
  cases h with
  | nil => rfl
  | cons hsame hform hrest =>
    obtain ⟨rfl, -⟩ | ⟨_, _, _, _, _, _, rfl, rfl⟩ := outline_cases hsame <;> rfl

theorem joinLink_outline {t t' : Token} (h : t.outline = t'.outline) {left left' right right' : Command}
    (hleft : SameCommand left left') (hright : SameCommand right right') :
    SameCommand (joinLink t left right) (joinLink t' left' right') := by
  rw [SameCommand, joinLink, joinLink, isOp_outline h]
  split <;> rw [Command.outline, Command.outline, hleft, hright]

section

variable {command : CommandReader} (hcommand : InStep command) {inBlock : Bool} {ts ts' : List Token}
include hcommand

theorem pipelineFrom_agree {left left' : Command} (hleft : SameCommand left left') (h : Twins .behind ts ts') :
    Agree SameCommand .behind (bare (pipelineFrom command inBlock left ts))
      (bare (pipelineFrom command inBlock left' ts')) := by
  obtain ⟨len, hlen⟩ : ∃ len, ts.length = len := ⟨_, rfl⟩
  induction len using Nat.strongRecOn generalizing left left' ts ts' with
  | _ len ih =>
    have htwins := h
    cases h with
    | nil =>
      rw [pipelineFrom_nil, pipelineFrom_nil]
      exact ⟨hleft, .nil⟩
    | @cons _ t t' us us' hsame hform hrest =>
      rw [pipelineFrom_cons, pipelineFrom_cons, isOp_outline hsame, (start_outline hsame).2]
      split
      · rename_i hbar
        rw [after_of_isOp hbar (by decide) (by decide)] at hrest
        rw [expectOperand_outline hrest]
        obtain e | _ := expectOperand .pipe t.stop us
        · exact rfl
        · refine (hcommand inBlock us us' hrest).bind fun right right' rest rest' hread hright hnext => ?_
          have hlt := of_bare hread
          refine ih _ (by simp at hlen; omega) ?_ hnext rfl
          rw [SameCommand, Command.outline, Command.outline, hleft, hright]
      · exact ⟨hleft, htwins⟩

theorem pipeline_agree (h : Twins .start ts ts') :
    Agree SameCommand .behind (bare (pipeline command inBlock ts)) (bare (pipeline command inBlock ts')) := by
  rw [pipeline_eq, pipeline_eq]
  exact (hcommand inBlock ts ts' h).bind fun _ _ _ _ _ hleft hrest => pipelineFrom_agree hcommand hleft hrest

theorem chainFrom_agree {left left' : Command} (hleft : SameCommand left left') (h : Twins .behind ts ts') :
    Agree SameCommand .behind (bare (chainFrom command inBlock left ts))
      (bare (chainFrom command inBlock left' ts')) := by
  obtain ⟨len, hlen⟩ : ∃ len, ts.length = len := ⟨_, rfl⟩
  induction len using Nat.strongRecOn generalizing left left' ts ts' with
  | _ len ih =>
    have htwins := h
    cases h with
    | nil =>
      rw [chainFrom_nil, chainFrom_nil]
      exact ⟨hleft, .nil⟩
    | @cons _ t t' us us' hsame hform hrest =>
      have hlink : linkOf t' = linkOf t := by rw [linkOf, linkOf, isOp_outline hsame]
      rw [chainFrom_cons, chainFrom_cons, isOp_outline hsame, isOp_outline hsame, hlink, (start_outline hsame).2]
      split
      · rename_i hsign
        have hafter : Place.behind.after t = .start := by
          obtain h | h := Bool.or_eq_true_iff.mp hsign <;> exact after_of_isOp h (by decide) (by decide) _
        rw [hafter] at hrest
        rw [expectOperand_outline hrest]
        obtain e | _ := expectOperand (linkOf t) t.stop us
        · exact rfl
        · refine (pipeline_agree hcommand hrest).bind fun right right' rest rest' hread hright hnext => ?_
          have hlt := of_bare hread
          exact ih _ (by simp at hlen; omega) (joinLink_outline hsame hleft hright) hnext rfl
      · exact ⟨hleft, htwins⟩

theorem chain_agree (h : Twins .start ts ts') :
    Agree SameCommand .behind (bare (chain command inBlock ts)) (bare (chain command inBlock ts')) := by
  rw [chain_eq, chain_eq]
  exact (pipeline_agree hcommand h).bind fun _ _ _ _ _ hleft hrest => chainFrom_agree hcommand hleft hrest

omit hcommand in
/-- What follows the commands so far of a sequence, given that a shorter rest is read in step. -/
theorem afterItem_agree {joined joined' : Command} (hjoined : SameCommand joined joined')
    (h : Twins .behind ts ts')
    (hmore : ∀ us us', us.length < ts.length → Twins .start us us' →
      Agree (Option.Rel SameCommand) .behind (bare (sequenceFrom command inBlock false (some joined) us))
        (bare (sequenceFrom command inBlock false (some joined') us'))) :
    Agree (Option.Rel SameCommand) .behind (afterItem command inBlock false joined ts)
      (afterItem command inBlock false joined' ts') := by
  have htwins := h
  cases h with
  | nil => exact ⟨.some hjoined, .nil⟩
  | @cons _ t t' us us' hsame hform hrest =>
    rw [afterItem, afterItem, separates, separates, isOp_outline hsame, isOp_outline hsame]
    split
    · rename_i hsep
      have hafter : Place.behind.after t = .start := by
        obtain h | h := separates_cases hsep <;> exact after_of_isOp h (by decide) (by decide) _
      rw [hafter] at hrest
      exact hmore us us' (Nat.lt_succ_self _) hrest
    · exact ⟨.some hjoined, htwins⟩

theorem sequenceFrom_agree {prev prev' : Option Command} (hprev : Option.Rel SameCommand prev prev')
    (h : Twins .start ts ts') :
    Agree (Option.Rel SameCommand) .behind (bare (sequenceFrom command inBlock false prev ts))
      (bare (sequenceFrom command inBlock false prev' ts')) := by
  obtain ⟨len, hlen⟩ : ∃ len, ts.length = len := ⟨_, rfl⟩
  induction len using Nat.strongRecOn generalizing prev prev' ts ts' with
  | _ len ih =>
    have hshort : (itemStart false ts).length ≤ ts.length := (List.dropWhile_suffix _).length_le
    rw [sequenceFrom_eq, sequenceFrom_eq]
    have hstart : Twins .start (itemStart false ts) (itemStart false ts') := h.dropWhile_lineBreak rfl
    generalize itemStart false ts = start at hstart hshort
    generalize itemStart false ts' = start' at hstart
    have htwins := hstart
    cases hstart with
    | nil => exact ⟨hprev, .nil⟩
    | @cons _ t t' us us' hsame hform hrest =>
      dsimp only
      rw [endsSequence, endsSequence, isOp_outline hsame, isOp_outline hsame, isOp_outline hsame,
        isOperator_outline hsame]
      split
      · rename_i hend
        have hclose : t.isOp .closeParen = true := by simpa [endsSequence] using hend
        refine ⟨hprev, .cons hsame (by simp) ?_⟩
        rw [(after_of_close hclose).1] at hrest
        rw [(after_of_close hclose).2]
        exact hrest
      · split
        · rename_i hop
          obtain ⟨rfl, -⟩ | ⟨_, _, _, _, _, _, rfl, rfl⟩ := outline_cases hsame
          · exact rfl
          · cases hop
        · refine (chain_agree hcommand htwins).bind fun item item' rest rest' hread hitem hnext => ?_
          have hlt := of_bare hread
          have hjoined : SameCommand (joinBoth prev item) (joinBoth prev' item') := by
            cases hprev with
            | none => exact hitem
            | some hsame => rw [SameCommand, joinBoth, joinBoth, Command.outline, Command.outline, hsame, hitem]
          refine afterItem_agree hjoined hnext fun vs vs' hvs htail => ?_
          exact ih vs.length (by simp at hvs; omega) (.some hjoined) htail rfl

theorem block_agree (opened : Nat) (h : Twins .start ts ts') :
    Agree SameCommand .behind (bare (block command opened ts)) (bare (block command opened ts')) := by
  rw [block_eq, block_eq]
  refine (sequenceFrom_agree hcommand .none h).bind fun body body' rest rest' _ hbody hrest => ?_
  cases hrest with
  | nil => exact rfl
  | @cons _ t t' us us' hsame hform hrest =>
    dsimp only
    rw [isOp_outline hsame]
    split
    · rename_i hclose
      rw [(after_of_close hclose).2] at hrest
      refine (redirectionsFrom_agree hrest).bind fun rs rs' _ _ _ hrs hlast => ⟨?_, hlast⟩
      cases hbody with
      | none => rw [SameCommand, Command.outline, Command.outline, hrs]
      | some hsame =>
        simp only [SameCommand, Command.outline, Option.getD_some, hrs]
        rw [hsame]
    · exact rfl

end

theorem commandWith_agree {inner : CommandReader} (hinner : InStep inner) (lineEnd : Nat) :
    InStep (commandWith lineEnd inner) := by
  intro inBlock ts ts' h
  cases h with
  | nil => exact rfl
  | @cons _ t t' us us' hsame hform hrest =>
    obtain ⟨hform, hform'⟩ := hform rfl
    cases hopen : t.isOp .openParen with
    | true =>
      rw [after_of_open hopen] at hrest
      rw [commandWith_block hopen, commandWith_block ((isOp_outline hsame _).trans hopen), (start_outline hsame).1]
      exact block_agree hinner t.start hrest
    | false =>
      have hopen' := (isOp_outline hsame .openParen).trans hopen
      cases hop : t.isOperator with
      | true =>
        rw [commandWith_operator hop hopen, commandWith_operator ((isOperator_outline hsame).trans hop) hopen']
        obtain ⟨rfl, -⟩ | ⟨_, _, _, _, _, _, rfl, rfl⟩ := outline_cases hsame
        · exact rfl
        · cases hop
      | false =>
        rw [commandWith_simple hopen hform, commandWith_simple hopen' hform', simple_eq_simpleFrom hop,
          simple_eq_simpleFrom ((isOperator_outline hsame).trans hop)]
        have htwins : Twins (.inside 0) (t :: us) (t' :: us') := by
          refine .cons hsame (by simp) ?_
          have hinside : Place.inside 0 ≠ .start := by decide
          rw [after_start hop] at hrest
          rw [after_eq_self hinside hop]
          exact hrest
        exact (simpleFrom_agree ⟨rfl, rfl, rfl, rfl, rfl⟩ htwins).bind fun c c' _ _ _ hc hlast =>
          ⟨congrArg Command.simple hc, hlast⟩

theorem commandReader_agree (lineEnd depth : Nat) : InStep (commandReader lineEnd depth) := by
  induction depth with
  | zero =>
    intro inBlock ts ts' h
    cases h with
    | nil => exact rfl
    | cons hsame _ _ => exact congrArg (FormError.mk .tooDeep) (start_outline hsame).1
  | succ depth ih => exact commandWith_agree ih lineEnd

theorem lineEnd_outline {ts ts' : List Token} (h : ts.map (·.outline) = ts'.map (·.outline)) :
    lineEnd ts' = lineEnd ts := by
  have hstop : ∀ us : List Token, us.getLast?.map (·.stop) = (us.map (·.outline)).getLast?.map (·.stop) := by
    intro us
    rw [List.getLast?_map, Option.map_map]
    rfl
  rw [lineEnd, lineEnd, hstop ts, hstop ts', h]

/-! ## One line in two states -/

/-- The same error, or the complaint of two words that stand in one place, each with its own text. -/
def SameError (ts ts' : List Token) (e e' : FormError) : Prop :=
  e = e' ∨ ∃ t t', (t, t') ∈ ts.zip ts' ∧ t.isWord = true ∧ t'.isWord = true ∧ t.start = t'.start ∧
    e = ⟨.unexpected t.text, t.start⟩ ∧ e' = ⟨.unexpected t'.text, t'.start⟩

/-- The readings of two lists of tokens: commands of one outline, or the same error. -/
def SameReading (ts ts' : List Token) :
    Except FormError (Option Command) → Except FormError (Option Command) → Prop
  | .ok found, .ok found' => found'.map (·.outline) = found.map (·.outline)
  | .error e, .error e' => SameError ts ts' e e'
  | _, _ => False

/-- A sequence leaves what follows it. -/
theorem sequenceFrom_suffix {lineEnd depth : Nat} {inBlock oneLine : Bool} {ts rest : List Token}
    {found : Option Command}
    (h : bare (sequenceFrom (commandReader lineEnd depth) inBlock oneLine none ts) = .ok (found, rest)) :
    rest <:+ ts := by
  obtain ⟨_, -, hread⟩ | ⟨-, breaks, hbreaks, -⟩ :=
    sequence_sound (commandReader_sound true lineEnd depth) (.inl rfl) h
  · exact hread.suffix
  · exact ⟨breaks, hbreaks.symm⟩

/-- Tokens in one place, as many from the end. -/
theorem mem_zip_of_suffix {t t' : Token} {us us' ts ts' : List Token} (h : t :: us <:+ ts) (h' : t' :: us' <:+ ts')
    (hlen : ts.length = ts'.length) (hus : us.length = us'.length) : (t, t') ∈ ts.zip ts' := by
  obtain ⟨run, rfl⟩ := h
  obtain ⟨run', rfl⟩ := h'
  have hrun : run.length = run'.length := by
    rw [List.length_append, List.length_append, List.length_cons, List.length_cons, hus] at hlen
    exact Nat.add_right_cancel hlen
  rw [List.zip_append hrun]
  simp

/-- Tokens of one outline are read in step, up to what is said of a word that stands behind a block. -/
theorem ofTokens?_sameReading {ts ts' : List Token} (h : ts.map (·.outline) = ts'.map (·.outline))
    (hts : FormFree .start ts) (hts' : FormFree .start ts') :
    SameReading ts ts' (Command.ofTokens? ts) (Command.ofTokens? ts') := by
  have htwins := Twins.of_outline h hts hts'
  have hagree : Agree (Option.Rel SameCommand) .behind
      (bare (sequenceFrom (commandReader (lineEnd ts) maxDepth) false false none ts))
      (bare (sequenceFrom (commandReader (lineEnd ts) maxDepth) false false none ts')) :=
    sequenceFrom_agree (commandReader_agree (lineEnd ts) maxDepth) .none htwins
  rw [ofTokens?_eq, ofTokens?_eq, lineEnd_outline h]
  cases hread : bare (sequenceFrom (commandReader (lineEnd ts) maxDepth) false false none ts) with
  | error e =>
    cases hread' : bare (sequenceFrom (commandReader (lineEnd ts) maxDepth) false false none ts') with
    | ok x' =>
      rw [hread, hread'] at hagree
      cases hagree
    | error e' =>
      rw [hread, hread'] at hagree
      exact .inl (Eq.symm hagree)
  | ok x =>
    cases hread' : bare (sequenceFrom (commandReader (lineEnd ts) maxDepth) false false none ts') with
    | error e' =>
      rw [hread, hread'] at hagree
      cases hagree
    | ok x' =>
      rw [hread, hread'] at hagree
      obtain ⟨found, rest⟩ := x
      obtain ⟨found', rest'⟩ := x'
      obtain ⟨hfound, hrest⟩ := hagree
      cases hrest with
      | nil =>
        cases hfound with
        | none => exact rfl
        | some hsame => exact congrArg some hsame
      | @cons _ t t' us us' hsame hform hrest =>
        obtain ⟨rfl, -⟩ | ⟨_, _, _, _, _, _, rfl, rfl⟩ := outline_cases hsame
        · exact .inl rfl
        · have hmem := mem_zip_of_suffix (sequenceFrom_suffix hread) (sequenceFrom_suffix hread')
            htwins.length_eq hrest.length_eq
          exact .inr ⟨_, _, hmem, rfl, rfl, rfl, rfl, rfl⟩

end Parser

namespace Expansion

theorem expandToken_outline {files : FileTree} {now : Nat → Ambient} {s : State} {t u : Token}
    (h : expandToken files now s t = .ok u) : u.outline = t.outline := by
  unfold expandToken at h
  split at h
  · rename_i text quoted hlexeme
    obtain ⟨expanded, -, rfl⟩ := Except.map_eq_ok_iff.mp h
    rw [Token.outline, Token.outline, hlexeme]
    rfl
  · cases h
    rfl

theorem expandTokens_outline {files : FileTree} {now : Nat → Ambient} {s : State} {ts us : List Token}
    (h : expandTokens files now s ts = .ok us) : us.map (·.outline) = ts.map (·.outline) := by
  induction ts generalizing us with
  | nil =>
    cases h
    rfl
  | cons t ts ih =>
    obtain ⟨v, vs, hv, hvs, rfl⟩ := expandTokens_cons_eq_ok_iff.mp h
    rw [List.map_cons, List.map_cons, expandToken_outline hv, ih hvs]

open BatchShell.Parser

/-- **Values do not change the structure of a line.** In any two states in which a line can be expanded, if no word
where a command starts becomes `IF`, `FOR` or `REM`, the expanded line is read as commands of one outline, or both
readings fail at one place with one message; only the complaint of an unexpected word quotes that word as it was
expanded. -/
theorem structure_of_line (line : String) (files files' : FileTree) (now now' : Nat → Ambient) (s s' : State)
    (ts ts' : List Token) (hts : expandTokens files now s (Token.scan line) = .ok ts)
    (hts' : expandTokens files' now' s' (Token.scan line) = .ok ts') (h : FormFree .start ts)
    (h' : FormFree .start ts') : SameReading ts ts' (Command.ofTokens? ts) (Command.ofTokens? ts') :=
  ofTokens?_sameReading (by rw [expandTokens_outline hts, expandTokens_outline hts']) h h'

/-- The state of a session in which only the variable `X` is set. -/
def stateWithX (value : String) : State := .initial (Environment.empty.set "X" value) "/"

/-- The tokens of a line where `X` has a value. -/
def expandedWithX (line value : String) : Except Crash (List Token) :=
  expandTokens .empty (fun _ => .epoch) (stateWithX value) (Token.scan line)

theorem exists_expandedWithX {line value : String} {p : List Token → Prop} [DecidablePred p]
    (h : (expandedWithX line value).toOption.any (fun ts => decide (p ts)) = true) :
    ∃ ts, expandedWithX line value = .ok ts ∧ p ts := by
  cases hts : expandedWithX line value with
  | error why => simp [hts, Except.toOption] at h
  | ok ts => exact ⟨ts, rfl, by simpa [hts, Except.toOption] using h⟩

/-- A value full of operators and an empty one. -/
theorem structure_of_line_operators :
    ∃ ts ts', expandedWithX "ECHO %X% | (SORT %X%) > f & %X%" "if & (a|b)" = .ok ts ∧
      expandedWithX "ECHO %X% | (SORT %X%) > f & %X%" "" = .ok ts' ∧ FormFree .start ts ∧ FormFree .start ts' ∧
      SameReading ts ts' (Command.ofTokens? ts) (Command.ofTokens? ts') := by
  have hexpanded : ∀ value ∈ ["if & (a|b)", ""],
      ∃ ts, expandedWithX "ECHO %X% | (SORT %X%) > f & %X%" value = .ok ts ∧ FormFree .start ts := by
    refine fun value hvalue => exists_expandedWithX ?_
    revert value
    decide +kernel
  obtain ⟨ts, hts, h⟩ := hexpanded "if & (a|b)" (by decide)
  obtain ⟨ts', hts', h'⟩ := hexpanded "" (by decide)
  exact ⟨ts, ts', hts, hts', h, h', structure_of_line _ _ _ _ _ _ _ ts ts' hts hts' h h'⟩

/-- The message need not be the same: a word behind a block is quoted with its value. -/
theorem message_quotes_value :
    (∀ value ∈ ["1", "2"], ∃ ts, expandedWithX "(ECHO a) %X%" value = .ok ts ∧
      FormFree .start ts ∧ Command.ofTokens? ts = .error ⟨.unexpected value, 9⟩) ∧
      (FormFault.unexpected "1").message ≠ (FormFault.unexpected "2").message := by
  refine ⟨fun value hvalue => exists_expandedWithX ?_, by decide +kernel⟩
  revert value
  decide +kernel

end Expansion

end BatchShell
