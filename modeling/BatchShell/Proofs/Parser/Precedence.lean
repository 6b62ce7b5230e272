import BatchShell.Proofs.Parser.Grammar

/-!
# Precedence

Bars bind tighter than `&&` and `||`, which bind tighter than `&` and line breaks, and all of them associate to
the left. `Command.LeftNested` says so of a tree, at every level. `Command.lexemes` writes such a tree down
without parentheses other than those of its blocks.

* `Spells.leftNested`: every tree that the grammar spells is nested to the left.
* `Spells.stages`: a pipeline in it has its stages in the order of the tokens.
* `spells_of_writes`: a tree that is nested to the left is spelled by what is written for it.
* `sequence_grammar`: the readers accept the grammar, and nothing else.
-/
namespace BatchShell

/-! ## Trees -/

namespace Command

/-- How loosely the last operator of a command binds; a single command has none. -/
def rank : Command → Nat
  | .pipe .. => 1
  | .andThen .. | .orElse .. => 2
  | .both .. => 3
  | _ => 0

/-- A command and the commands inside it. -/
def parts : Command → List Command
  | .simple c => [.simple c]
  | .block body rs => .block body rs :: body.parts
  | .ifThen asked body => .ifThen asked body :: body.parts
  | .ifElse asked body other => .ifElse asked body other :: (body.parts ++ other.parts)
  | .loop head body => .loop head body :: body.parts
  | .pipe left right => .pipe left right :: (left.parts ++ right.parts)
  | .both left right => .both left right :: (left.parts ++ right.parts)
  | .andThen left right => .andThen left right :: (left.parts ++ right.parts)
  | .orElse left right => .orElse left right :: (left.parts ++ right.parts)

/-- An operator has operands that bind tighter, and on its left perhaps an operator of its own kind. -/
def JoinsLeft : Command → Prop
  | .pipe left right => left.rank ≤ 1 ∧ right.rank = 0
  | .andThen left right | .orElse left right => left.rank ≤ 2 ∧ right.rank ≤ 1
  | .both _ right => right.rank ≤ 2
  | _ => True

/-- Every operator of the tree, also inside blocks, conditions and loops, is nested to the left. -/
def LeftNested (c : Command) : Prop := ∀ p ∈ c.parts, p.JoinsLeft

/-- How deep commands nest. -/
def nesting : Command → Nat
  | .simple _ => 1
  | .block body _ | .ifThen _ body | .loop _ body => body.nesting + 1
  | .ifElse _ body other => max body.nesting other.nesting + 1
  | .pipe left right | .both left right | .andThen left right | .orElse left right =>
    max left.nesting right.nesting

/-- The command without the texts that its simple commands keep of their arguments. -/
def forgetRaw : Command → Command
  | .simple c => .simple { c with rawArgs := "" }
  | .block body rs => .block body.forgetRaw rs
  | .ifThen asked body => .ifThen asked body.forgetRaw
  | .ifElse asked body other => .ifElse asked body.forgetRaw other.forgetRaw
  | .loop head body => .loop head body.forgetRaw
  | .pipe left right => .pipe left.forgetRaw right.forgetRaw
  | .both left right => .both left.forgetRaw right.forgetRaw
  | .andThen left right => .andThen left.forgetRaw right.forgetRaw
  | .orElse left right => .orElse left.forgetRaw right.forgetRaw

theorem rank_le (c : Command) : c.rank ≤ 3 := by
  cases c <;> simp [rank]

theorem mem_parts_self (c : Command) : c ∈ c.parts := by
  cases c <;> simp [parts]

end Command

/-! ## Writing a tree down -/

/-- A redirection with its stream digit. -/
def Redirection.lexemes (r : Redirection) : List Lexeme :=
  match r.target with
  | .file name => [.redirect ⟨some (Fin.ofNat 10 r.handle), r.op, none⟩, .word name false]
  | .handle d => [.redirect ⟨some (Fin.ofNat 10 r.handle), r.op, some (Fin.ofNat 10 d)⟩]

/-- Streams are written with one digit. -/
def Redirection.Writable (r : Redirection) : Prop :=
  r.handle < 10 ∧ ∀ d, r.target = .handle d → d < 10

/-- The name, the arguments and the redirections of a simple command. -/
def SimpleCommand.lexemes (c : SimpleCommand) : List Lexeme :=
  .word c.name false :: (c.args.map (.word · false) ++ c.redirections.flatMap (·.lexemes))

/-- The name is read back as the name of a simple command. -/
def SimpleCommand.Writable (c : SimpleCommand) : Prop :=
  c.name.toList.head? ≠ some '@' ∧ c.name.map Char.toUpper ∉ ["IF", "FOR", "REM"] ∧
    ∀ r ∈ c.redirections, r.Writable

namespace Command

/-- What is written for a tree of simple commands and blocks. -/
def lexemes : Command → List Lexeme
  | .simple c => c.lexemes
  | .block body rs =>
    .operator .openParen :: (body.lexemes ++ .operator .closeParen :: rs.flatMap (·.lexemes))
  | .pipe left right => left.lexemes ++ .operator .pipe :: right.lexemes
  | .both left right => left.lexemes ++ .operator .both :: right.lexemes
  | .andThen left right => left.lexemes ++ .operator .andThen :: right.lexemes
  | .orElse left right => left.lexemes ++ .operator .orElse :: right.lexemes
  | .ifThen .. | .ifElse .. | .loop .. => []

/-- The command is not a condition or a loop, and what is written for it itself can be read back. -/
def WritableNode : Command → Prop
  | .simple s => s.Writable
  | .block _ rs => ∀ r ∈ rs, r.Writable
  | .ifThen .. | .ifElse .. | .loop .. => False
  | _ => True

/-- The tree has only simple commands and blocks, and these can be written. -/
def Writable (c : Command) : Prop := ∀ p ∈ c.parts, p.WritableNode

end Command

/-- A lexeme without its quotation mark. -/
def Lexeme.unquoted : Lexeme → Lexeme
  | .word text _ => .word text false
  | other => other

/-- What the tokens say, apart from quotation. -/
def sayings (ts : List Token) : List Lexeme := ts.map (·.lexeme.unquoted)

/-- White space stands between two words. -/
def Spaced (ts : List Token) : Prop :=
  ∀ t u, [t, u] <:+: ts → t.isWord = true → u.isWord = true → u.leading ≠ ""

theorem Spaced.of_run {ts us : List Token} (h : Spaced ts) (hus : us <:+: ts) : Spaced us :=
  fun t u hpair => h t u (hpair.trans hus)

/-- The tokens say what is written for `c`, with any white space and in any place, but no word is
glued to another. -/
def Writes (ts : List Token) (c : Command) : Prop :=
  sayings ts = c.lexemes ∧ Spaced ts

namespace Parser

/-! ## What is spelled is nested to the left -/

/-- The loosest operator that a part may have outside blocks. -/
def Part.rank : Part → Nat
  | .command => 0
  | .pipeline => 1
  | .chain => 2
  | .sequence _ | .lines _ | .body => 3

section

variable {forms : Bool} {depth : Nat} {inBlock : Bool} {part : Part} {n : Int} {run : List Token} {c : Command}

theorem joinLink_cases (t : Token) (left right : Command) :
    joinLink t left right = .andThen left right ∨ joinLink t left right = .orElse left right := by
  unfold joinLink
  split
  · exact .inl rfl
  · exact .inr rfl

theorem Spells.leftNested (h : Spells forms depth inBlock part n run c) :
    c.LeftNested ∧ c.rank ≤ part.rank := by
  induction h with
  | simple => exact ⟨by simp [Command.LeftNested, Command.parts, Command.JoinsLeft], Nat.le_refl 0⟩
  | remark => exact ⟨by simp [Command.LeftNested, Command.parts, Command.JoinsLeft], Nat.le_refl 0⟩
  | emptyBlock => exact ⟨by simp [Command.LeftNested, Command.parts, Command.JoinsLeft], Nat.le_refl 0⟩
  | block _ _ _ _ ih => exact ⟨List.forall_mem_cons.mpr ⟨trivial, ih.1⟩, Nat.le_refl 0⟩
  | ifThen _ _ _ ih => exact ⟨List.forall_mem_cons.mpr ⟨trivial, ih.1⟩, Nat.le_refl 0⟩
  | loop _ _ _ ih => exact ⟨List.forall_mem_cons.mpr ⟨trivial, ih.1⟩, Nat.le_refl 0⟩
  | ifElse _ _ _ _ _ ihbody ihother =>
    exact ⟨List.forall_mem_cons.mpr ⟨trivial, List.forall_mem_append.mpr ⟨ihbody.1, ihother.1⟩⟩, Nat.le_refl 0⟩
  | enclosed _ ih => exact ⟨ih.1, Nat.zero_le 3⟩
  | inline _ _ ih => exact ih
  | lines _ _ _ ih => exact ih
  | stage _ ih => exact ⟨ih.1, Nat.le_succ_of_le ih.2⟩
  | link _ ih => exact ⟨ih.1, Nat.le_succ_of_le ih.2⟩
  | item _ ih => exact ⟨ih.1, Nat.le_succ_of_le ih.2⟩
  | pipe _ _ _ ihl ihr =>
    refine ⟨List.forall_mem_cons.mpr ⟨⟨ihl.2, Nat.le_zero.mp ihr.2⟩, ?_⟩, Nat.le_refl 1⟩
    exact List.forall_mem_append.mpr ⟨ihl.1, ihr.1⟩
  | @join _ _ _ _ l sign _ _ r _ _ _ ihl ihr =>
    obtain heq | heq := joinLink_cases sign l r <;> rw [heq] <;>
      exact ⟨List.forall_mem_cons.mpr ⟨⟨ihl.2, ihr.2⟩, List.forall_mem_append.mpr ⟨ihl.1, ihr.1⟩⟩, Nat.le_refl 2⟩
  | both _ _ _ ihl ihr =>
    exact ⟨List.forall_mem_cons.mpr ⟨ihr.2, List.forall_mem_append.mpr ⟨ihl.1, ihr.1⟩⟩, Nat.le_refl 3⟩

end

/-- The commands are spelled one after another, with a bar between two of them. -/
inductive Piped (stage : List Token → Command → Prop) : List Token → List Command → Prop where
  | one {run c} (hstage : stage run c) : Piped stage run [c]
  | more {left cs bar run c} (hleft : Piped stage left cs) (hbar : bar.isOp .pipe = true)
      (hstage : stage run c) : Piped stage (left ++ bar :: run) (cs ++ [c])

/-- The tokens spell one single command. -/
def Stage (run : List Token) (c : Command) : Prop :=
  c.rank = 0 ∧ ∃ depth inBlock n, Spells true depth inBlock .command n run c

/-- If the command is a pipeline, its stages stand among the tokens in their order. -/
def InOrder (run : List Token) (c : Command) : Prop :=
  c.rank = 1 → ∃ segment, segment <:+: run ∧ Piped Stage segment c.stages

section

variable {depth : Nat} {inBlock : Bool} {part : Part} {n : Int} {run run' : List Token} {c : Command}

theorem InOrder.widen (h : ∀ p ∈ c.parts, InOrder run p) (hrun : run <:+: run') :
    ∀ p ∈ c.parts, InOrder run' p := by
  intro p hp hrank
  obtain ⟨segment, hsegment, hpiped⟩ := h p hp hrank
  exact ⟨segment, hsegment.trans hrun, hpiped⟩

theorem InOrder.of_rank_ne (h : c.rank ≠ 1) : InOrder run c := fun hrank => absurd hrank h

theorem stages_of_rank_zero (h : c.rank = 0) : c.stages = [c] := by
  cases c with
  | pipe left right => cases h
  | _ => rfl

/-- The stages of a pipeline, and of all pipelines inside its stages. -/
theorem Spells.inOrder (h : Spells true depth inBlock part n run c) :
    (∀ p ∈ c.parts, InOrder run p) ∧ (part = .pipeline → Piped Stage run c.stages) := by
  induction h with
  | simple => exact ⟨List.forall_mem_singleton.mpr (.of_rank_ne Nat.zero_ne_one), by simp⟩
  | remark => exact ⟨List.forall_mem_singleton.mpr (.of_rank_ne Nat.zero_ne_one), by simp⟩
  | emptyBlock =>
    exact ⟨List.forall_mem_cons.mpr ⟨.of_rank_ne Nat.zero_ne_one,
      List.forall_mem_singleton.mpr (.of_rank_ne Nat.zero_ne_one)⟩, by simp⟩
  | @block _ _ opened body c closed after _ _ _ _ _ ih =>
    have hrun : body <:+: opened :: (body ++ closed :: after) := ⟨[opened], closed :: after, by simp⟩
    exact ⟨List.forall_mem_cons.mpr ⟨.of_rank_ne Nat.zero_ne_one, InOrder.widen ih.1 hrun⟩, by simp⟩
  | ifThen _ _ _ ih =>
    exact ⟨List.forall_mem_cons.mpr ⟨.of_rank_ne Nat.zero_ne_one,
      InOrder.widen ih.1 (List.suffix_append _ _).isInfix⟩, by simp⟩
  | loop _ _ _ ih =>
    exact ⟨List.forall_mem_cons.mpr ⟨.of_rank_ne Nat.zero_ne_one,
      InOrder.widen ih.1 (List.suffix_append _ _).isInfix⟩, by simp⟩
  | @ifElse _ _ head _ _ body _ _ word _ other _ _ _ _ _ _ ihbody ihother =>
    have hbody : body <:+: head ++ (body ++ (word ++ other)) := ⟨head, word ++ other, by simp⟩
    have hother : other <:+: head ++ (body ++ (word ++ other)) := ⟨head ++ body ++ word, [], by simp⟩
    refine ⟨List.forall_mem_cons.mpr ⟨.of_rank_ne Nat.zero_ne_one, List.forall_mem_append.mpr ⟨?_, ?_⟩⟩, by simp⟩
    · exact InOrder.widen ihbody.1 hbody
    · exact InOrder.widen ihother.1 hother
  | enclosed _ ih => exact ⟨ih.1, by simp⟩
  | inline _ _ ih => exact ⟨ih.1, by simp⟩
  | @lines _ _ _ breaks _ run _ _ ending _ _ _ ih =>
    exact ⟨InOrder.widen ih.1 ⟨breaks, ending, by simp⟩, by simp⟩
  | stage hrun ih =>
    have hrank := Nat.le_zero.mp hrun.leftNested.2
    refine ⟨ih.1, fun _ => ?_⟩
    rw [stages_of_rank_zero hrank]
    exact .one ⟨hrank, _, _, _, hrun⟩
  | link _ ih => exact ⟨ih.1, by simp⟩
  | item _ ih => exact ⟨ih.1, by simp⟩
  | @pipe _ _ _ left l bar _ right r _ hbar hright ihl ihr =>
    have hrank := Nat.le_zero.mp hright.leftNested.2
    have hpiped : Piped Stage (left ++ bar :: right) (l.stages ++ r.stages) := by
      rw [stages_of_rank_zero hrank]
      exact (ihl.2 rfl).more hbar ⟨hrank, _, _, _, hright⟩
    have hrun : right <:+: left ++ bar :: right := ⟨left ++ [bar], [], by simp⟩
    refine ⟨List.forall_mem_cons.mpr ⟨?_, List.forall_mem_append.mpr ⟨?_, ?_⟩⟩, fun _ => hpiped⟩
    · exact fun _ => ⟨_, List.infix_refl _, hpiped⟩
    · exact InOrder.widen ihl.1 (List.prefix_append _ _).isInfix
    · exact InOrder.widen ihr.1 hrun
  | @join _ _ _ left l sign _ right r _ _ _ ihl ihr =>
    have hrun : right <:+: left ++ sign :: right := ⟨left ++ [sign], [], by simp⟩
    have hl := InOrder.widen ihl.1 (List.prefix_append left (sign :: right)).isInfix
    have hr := InOrder.widen ihr.1 hrun
    obtain heq | heq := joinLink_cases sign l r <;> rw [heq] <;>
      exact ⟨List.forall_mem_cons.mpr ⟨.of_rank_ne (by simp [Command.rank]),
        List.forall_mem_append.mpr ⟨hl, hr⟩⟩, by simp⟩
  | @both _ _ _ _ left l between _ right r _ _ _ ihl ihr =>
    have hrun : right <:+: left ++ (between ++ right) := ⟨left ++ between, [], by simp⟩
    have hl := InOrder.widen ihl.1 (List.prefix_append left (between ++ right)).isInfix
    have hr := InOrder.widen ihr.1 hrun
    exact ⟨List.forall_mem_cons.mpr ⟨.of_rank_ne (by simp [Command.rank]),
      List.forall_mem_append.mpr ⟨hl, hr⟩⟩, by simp⟩

end

/-! ## What is written is spelled -/

namespace SimpleScan

/-- The words of a simple command so far. -/
def words (s : SimpleScan) : List String := s.name.toList ++ (s.args.reverse ++ s.current.toList)

/-- There are arguments only after a name. -/
def Named (s : SimpleScan) : Prop := s.name = none → s.args = []

theorem closeWord_words {s : SimpleScan} (h : s.Named) :
    s.closeWord.words = s.words ∧ s.closeWord.Named ∧ s.closeWord.current = none ∧
      s.closeWord.redirections = s.redirections := by
  obtain ⟨name, args, raw, rs, current, parens⟩ := s
  cases current with
  | none => exact ⟨rfl, h, rfl, rfl⟩
  | some word =>
    cases name with
    | none =>
      cases h rfl
      exact ⟨rfl, fun _ => rfl, rfl, rfl⟩
    | some name => exact ⟨by simp [closeWord, words], by simp [Named, closeWord], rfl, rfl⟩

/-- A word that is not glued to the one before it is a new word. -/
theorem addText_words {s : SimpleScan} (h : s.Named) {leading : String}
    (hnew : s.current = none ∨ leading ≠ "") (text : String) :
    (s.addText leading text).words = s.words ++ [text] ∧ (s.addText leading text).Named ∧
      (s.addText leading text).redirections = s.redirections := by
  cases hcurrent : s.current with
  | none =>
    simp only [addText, hcurrent]
    exact ⟨by simp [words, hcurrent], h, trivial⟩
  | some word =>
    have hleading : leading.isEmpty = false := by
      rw [String.isEmpty_eq_false_iff]
      exact hnew.resolve_left (by simp [hcurrent])
    obtain ⟨hwords, hnamed, hnone, hrs⟩ := closeWord_words h
    simp only [addText, hcurrent, hleading, Bool.false_eq_true, if_false]
    rw [← hwords]
    exact ⟨by simp [words, hnone], hnamed, hrs⟩

/-- The name, the arguments and the redirections of the command that was read. -/
theorem finish_eq {s : SimpleScan} (h : s.Named) :
    s.finish.name = String.ofList ((s.words.headD "").toList.dropWhile (· == '@')) ∧
      s.finish.args = s.words.tail ∧ s.finish.redirections = s.redirections.reverse := by
  obtain ⟨hwords, hnamed, hnone, hrs⟩ := closeWord_words h
  rw [← hwords, ← hrs]
  simp only [finish, words, hnone]
  cases hname : s.closeWord.name with
  | none => simp [hnamed hname]
  | some name => simp

end SimpleScan

theorem redirect_of_unquoted {t : Token} {sign : RedirectSign} (h : t.lexeme.unquoted = .redirect sign) :
    t.lexeme = .redirect sign := by
  obtain ⟨lexeme, start, stop, leading⟩ := t
  cases lexeme with
  | redirect sign' => exact h
  | word text quoted => cases h
  | operator op => cases h

theorem operator_of_unquoted {t : Token} {op : Operator} (h : t.lexeme.unquoted = .operator op) :
    t.isOp op = true := by
  obtain ⟨lexeme, start, stop, leading⟩ := t
  cases lexeme with
  | operator op' =>
    cases h
    exact beq_self_eq_true _
  | word text quoted => cases h
  | redirect sign => cases h

theorem word_of_unquoted {t : Token} {text : String} (h : t.lexeme.unquoted = .word text false) :
    (∃ quoted, t.lexeme = .word text quoted) ∧ t.isWord = true ∧ t.text = text := by
  obtain ⟨lexeme, start, stop, leading⟩ := t
  cases lexeme with
  | word text' quoted =>
    cases h
    exact ⟨⟨quoted, rfl⟩, rfl, rfl⟩
  | operator op => cases h
  | redirect sign => cases h

/-- Nothing is glued to a word that redirections follow. -/
theorem unglued_of_redirections {rs : List Redirection} {ts : List Token}
    (h : sayings ts = rs.flatMap (·.lexemes)) : Unglued ts := by
  intro t us hts
  subst hts
  have hsign : ∃ sign, t.lexeme.unquoted = .redirect sign := by
    cases rs with
    | nil => cases h
    | cons r rs =>
      obtain ⟨handle, op, target⟩ := r
      cases target with
      | file name => exact ⟨_, (List.cons.inj h).1⟩
      | handle d => exact ⟨_, (List.cons.inj h).1⟩
  obtain ⟨sign, hsign⟩ := hsign
  rw [isGlued, Token.isWord, redirect_of_unquoted hsign]
  rfl

/-- The first of the redirections that were written. -/
theorem redirectTarget_written {r : Redirection} (hr : r.Writable) {rs : List Redirection} {ts : List Token}
    (h : sayings ts = r.lexemes ++ rs.flatMap (·.lexemes)) :
    ∃ t sign us after, ts = t :: us ∧ t.lexeme = .redirect sign ∧
      bare (redirectTarget t sign us) = .ok (r, after) ∧ sayings after = rs.flatMap (·.lexemes) := by
  obtain ⟨handle, op, target⟩ := r
  obtain ⟨hhandle, htarget⟩ := hr
  simp only at hhandle htarget
  cases target with
  | file name =>
    obtain ⟨t, us, rfl, hsign, hus⟩ := List.map_eq_cons_iff.mp h
    obtain ⟨u, after, rfl, hword, hafter⟩ := List.map_eq_cons_iff.mp hus
    obtain ⟨-, hisWord, htext⟩ := word_of_unquoted hword
    obtain ⟨hglued, hdrop⟩ := glued_append (unglued_of_redirections hafter) []
    refine ⟨t, _, u :: after, after, rfl, redirect_of_unquoted hsign, ?_, hafter⟩
    rw [redirectTarget_file rfl t hisWord, htext]
    simp only [List.nil_append, List.dropWhile_nil] at hglued hdrop
    rw [hglued, hdrop]
    simp [streamOf, hhandle, glued]
  | handle d =>
    obtain ⟨t, us, rfl, hsign, hus⟩ := List.map_eq_cons_iff.mp h
    refine ⟨t, _, us, us, rfl, redirect_of_unquoted hsign, ?_, hus⟩
    rw [redirectTarget_copy rfl t]
    simp [streamOf, hhandle, htarget d rfl]

theorem redirectionsFrom_written {rs : List Redirection} (hrs : ∀ r ∈ rs, r.Writable) {ts : List Token}
    (h : sayings ts = rs.flatMap (·.lexemes)) : bare (redirectionsFrom ts) = .ok (rs, []) := by
  induction rs generalizing ts with
  | nil =>
    cases List.map_eq_nil_iff.mp h
    exact redirectionsFrom_nil
  | cons r rs ih =>
    obtain ⟨hr, hrs⟩ := List.forall_mem_cons.mp hrs
    obtain ⟨t, sign, us, after, rfl, hsign, htarget, hafter⟩ := redirectTarget_written hr h
    rw [redirectionsFrom_redirect hsign, htarget, Except.bind_ok]
    dsimp only
    rw [ih hrs hafter]
    rfl

/-- The redirections at the end of a simple command. -/
theorem simpleFrom_redirections {rs : List Redirection} (hrs : ∀ r ∈ rs, r.Writable) {ts : List Token}
    (h : sayings ts = rs.flatMap (·.lexemes)) {s : SimpleScan} (hnamed : s.Named) :
    ∃ s' : SimpleScan, bare (simpleFrom s ts) = .ok (s'.finish, []) ∧ s'.Named ∧ s'.words = s.words ∧
      s'.redirections = rs.reverse ++ s.redirections := by
  induction rs generalizing ts s with
  | nil =>
    cases List.map_eq_nil_iff.mp h
    exact ⟨s, simpleFrom_nil s, hnamed, rfl, rfl⟩
  | cons r rs ih =>
    obtain ⟨hr, hrs⟩ := List.forall_mem_cons.mp hrs
    obtain ⟨t, sign, us, after, rfl, hsign, htarget, hafter⟩ := redirectTarget_written hr h
    obtain ⟨hwords, hnamed', -, hkept⟩ := SimpleScan.closeWord_words hnamed
    obtain ⟨s', hread, hs', hwords', hrs'⟩ := ih hrs hafter (show (s.addRedirection r).Named from hnamed')
    refine ⟨s', ?_, hs', hwords'.trans hwords, ?_⟩
    · rw [simpleFrom_cons, hsign]
      dsimp only
      rw [htarget]
      exact hread
    · rw [hrs', SimpleScan.addRedirection, hkept]
      simp

/-- The arguments of a simple command, each with white space before it. -/
theorem simpleFrom_args {args : List String} {ts : List Token} (h : sayings ts = args.map (.word · false))
    (hspaced : ∀ t ∈ ts, t.leading ≠ "") {s : SimpleScan} (hnamed : s.Named) (rest : List Token) :
    ∃ s' : SimpleScan, bare (simpleFrom s (ts ++ rest)) = bare (simpleFrom s' rest) ∧ s'.Named ∧
      s'.words = s.words ++ args ∧ s'.redirections = s.redirections := by
  induction args generalizing ts s with
  | nil =>
    cases List.map_eq_nil_iff.mp h
    exact ⟨s, rfl, hnamed, by simp, rfl⟩
  | cons arg args ih =>
    obtain ⟨t, us, rfl, hword, hus⟩ := List.map_eq_cons_iff.mp h
    obtain ⟨hleading, hspaced⟩ := List.forall_mem_cons.mp hspaced
    obtain ⟨hwords, hnamed', hrs⟩ := SimpleScan.addText_words hnamed (.inr hleading) arg
    obtain ⟨s', hread, hs', hwords', hrs'⟩ := ih hus hspaced hnamed'
    refine ⟨s', ?_, hs', by rw [hwords', hwords]; simp, hrs'.trans hrs⟩
    obtain ⟨⟨quoted, hlexeme⟩, -⟩ := word_of_unquoted hword
    rw [← hread, List.cons_append, simpleFrom_cons, hlexeme]

/-- Among words, every word but the first has white space before it. -/
theorem leading_of_spaced {t : Token} {us rest : List Token} (hspaced : Spaced (t :: (us ++ rest)))
    (ht : t.isWord = true) (hus : ∀ u ∈ us, u.isWord = true) : ∀ u ∈ us, u.leading ≠ "" := by
  induction us generalizing t with
  | nil => simp
  | cons u us ih =>
    obtain ⟨hu, hus⟩ := List.forall_mem_cons.mp hus
    refine List.forall_mem_cons.mpr ⟨?_, ?_⟩
    · exact hspaced t u ⟨[], us ++ rest, rfl⟩ ht hu
    · exact ih (hspaced.of_run ⟨[t], [], by simp⟩) hu hus

theorem rise_of_no_operator {ts : List Token} (h : ∀ t ∈ ts, t.isOperator = false) : rise ts = 0 := by
  induction ts with
  | nil => rfl
  | cons t ts ih =>
    obtain ⟨ht, hts⟩ := List.forall_mem_cons.mp h
    rw [rise_cons, ih hts, tokenRise_of_not_operator ht]
    rfl

/-- A simple command is written without operators. -/
theorem isOperator_of_mem_lexemes {c : SimpleCommand} {t : Token} (h : t.lexeme.unquoted ∈ c.lexemes) :
    t.isOperator = false := by
  have hno : ∀ r : Redirection, ∀ op, Lexeme.operator op ∉ r.lexemes := by
    intro r op
    unfold Redirection.lexemes
    split <;> simp
  obtain ⟨lexeme, start, stop, leading⟩ := t
  cases lexeme with
  | word text quoted => rfl
  | redirect sign => rfl
  | operator op => simp [SimpleCommand.lexemes, Lexeme.unquoted, hno] at h

theorem dropWhile_at {name : String} (h : name.toList.head? ≠ some '@') :
    String.ofList (name.toList.dropWhile (· == '@')) = name := by
  have hdrop : name.toList.dropWhile (· == '@') = name.toList := by
    cases hname : name.toList with
    | nil => rfl
    | cons c cs =>
      rw [hname, List.head?_cons, ne_eq, Option.some.injEq] at h
      rw [List.dropWhile_cons_of_neg (by simpa using h)]
  rw [hdrop, String.ofList_toList]

/-- A simple command that was written is read, with its name, arguments and redirections. -/
theorem simple_written {c : SimpleCommand} (hc : c.Writable) {ts : List Token}
    (h : sayings ts = c.lexemes) (hspaced : Spaced ts) :
    ∃ t us c', ts = t :: us ∧ t.isOperator = false ∧ ¬ StartsForm ts ∧ rise ts = 0 ∧
      bare (simple t us) = .ok (c', []) ∧ { c' with rawArgs := "" } = { c with rawArgs := "" } := by
  obtain ⟨hat, hform, hrs⟩ := hc
  have hplain : ∀ t ∈ ts, t.isOperator = false := by
    intro t ht
    apply isOperator_of_mem_lexemes
    rw [← h]
    exact List.mem_map_of_mem ht
  obtain ⟨t, us, rfl, hword, hus⟩ := List.map_eq_cons_iff.mp h
  obtain ⟨args, rs, rfl, hargs, hredirs⟩ := List.map_eq_append_iff.mp hus
  obtain ⟨⟨quoted, hlexeme⟩, hisWord, htext⟩ := word_of_unquoted hword
  have hargWords : ∀ u ∈ args, u.isWord = true := by
    intro u hu
    have hmem : u.lexeme.unquoted ∈ args.map (·.lexeme.unquoted) := List.mem_map_of_mem hu
    rw [hargs] at hmem
    obtain ⟨text, -, htext⟩ := List.mem_map.mp hmem
    exact (word_of_unquoted htext.symm).2.1
  have hleading := leading_of_spaced hspaced hisWord hargWords
  have hunglued : Unglued (args ++ rs) := by
    refine Unglued.append (fun u us hu => ?_) (unglued_of_redirections hredirs)
    subst hu
    simp [isGlued, hleading u (by simp)]
  have hkeyword : keywordAt (t :: (args ++ rs)) = some (c.name.map Char.toUpper) := by
    obtain ⟨_, hfirst⟩ := word?_cons hisWord (args ++ rs)
    have hglued : (glued (args ++ rs)).1 = "" := (glued_append hunglued []).1
    rw [keywordAt, peekWord?, hfirst, Option.map_some, Option.map_some, hglued, String.append_empty, htext,
      dropWhile_at hat]
  refine ⟨t, args ++ rs, ?_⟩
  -- the scan takes the name, then the arguments, then the redirections
  obtain ⟨hwords0, hnamed0, hrs0⟩ :=
    SimpleScan.addText_words (fun _ => rfl : SimpleScan.start.Named) (.inl rfl : _ ∨ t.leading ≠ "") c.name
  obtain ⟨s1, hread1, hnamed1, hwords1, hrs1⟩ := simpleFrom_args hargs hleading hnamed0 rs
  obtain ⟨s2, hread2, hnamed2, hwords2, hrs2⟩ := simpleFrom_redirections hrs hredirs hnamed1
  obtain ⟨hname, hargsEq, hredirsEq⟩ := SimpleScan.finish_eq hnamed2
  have hwords : s2.words = c.name :: c.args := by rw [hwords2, hwords1, hwords0]; rfl
  refine ⟨s2.finish, rfl, hplain t (by simp), ?_, rise_of_no_operator hplain, ?_, ?_⟩
  · simp only [List.mem_cons, List.not_mem_nil, or_false, not_or] at hform
    simp only [StartsForm, hkeyword, Option.some.injEq, hform, or_self, not_false_eq_true]
  · rw [simple_eq_simpleFrom (hplain t (by simp)), simpleFrom_cons, hlexeme]
    exact hread1.trans hread2
  · rw [hwords] at hname hargsEq
    rw [hrs2, hrs1, hrs0] at hredirsEq
    have hname' : s2.finish.name = c.name := hname.trans (dropWhile_at hat)
    simp only [hname', hargsEq, hredirsEq, SimpleScan.start, List.append_nil, List.reverse_reverse]
    rfl

/-- The part that a command of this rank is. -/
def Part.ofRank : Nat → Part
  | 0 => .command
  | 1 => .pipeline
  | 2 => .chain
  | _ => .sequence false

/-- A command that binds tighter is also a part that binds more loosely. -/
theorem Spells.of_rank_le {forms : Bool} {depth : Nat} {inBlock : Bool} {n : Int} {run : List Token}
    {c : Command} {r r' : Nat} (h : Spells forms depth inBlock (.ofRank r) n run c) (hle : r ≤ r') :
    Spells forms depth inBlock (.ofRank r') n run c := by
  induction r', hle using Nat.le_induction with
  | base => exact h
  | succ r' _ ih =>
    match r', ih with
    | 0, ih => exact ih.stage
    | 1, ih => exact ih.link
    | 2, ih => exact ih.item
    | _ + 3, ih => exact ih

/-- A sequence alone is lines. -/
theorem Spells.lines_of_rank {forms : Bool} {depth : Nat} {inBlock : Bool} {n : Int} {run : List Token}
    {c : Command} {r : Nat} (h : Spells forms depth inBlock (.ofRank r) n run c) (hle : r ≤ 3) :
    Spells forms depth inBlock (.lines false) n run c := by
  have hlines : Spells forms depth inBlock (.lines false) n ([] ++ (run ++ [])) c :=
    .lines (.nil false) (h.of_rank_le hle) (.inl ⟨rfl, rfl⟩)
  rwa [List.nil_append, List.append_nil] at hlines

/-- The two sides of an operator that was written. -/
theorem writes_operands {ts : List Token} {left right : List Lexeme} {op : Operator}
    (h : sayings ts = left ++ .operator op :: right) (hspaced : Spaced ts) :
    ∃ ls sign rs, ts = ls ++ sign :: rs ∧ sign.isOp op = true ∧ sayings ls = left ∧ sayings rs = right ∧
      Spaced ls ∧ Spaced rs := by
  obtain ⟨ls, tail, rfl, hls, htail⟩ := List.map_eq_append_iff.mp h
  obtain ⟨sign, rs, rfl, hsign, hrs⟩ := List.map_eq_cons_iff.mp htail
  exact ⟨ls, sign, rs, rfl, operator_of_unquoted hsign, hls, hrs,
    hspaced.of_run (List.prefix_append _ _).isInfix, hspaced.of_run ⟨ls ++ [sign], [], by simp⟩⟩

/-- What is written for `c` spells a command that differs from `c` at most in the texts of its arguments. -/
def SpelledAsWritten (c : Command) : Prop :=
  ∀ depth inBlock ts, c.nesting ≤ depth → Writes ts c →
    ∃ c', Spells false depth inBlock (.ofRank c.rank) 0 ts c' ∧ c'.forgetRaw = c.forgetRaw

theorem SpelledAsWritten.operands {left right : Command}
    (ihl : left.Writable → left.LeftNested → SpelledAsWritten left)
    (ihr : right.Writable → right.LeftNested → SpelledAsWritten right)
    (hwritable : ∀ p ∈ left.parts ++ right.parts, p.WritableNode)
    (hnested : ∀ p ∈ left.parts ++ right.parts, p.JoinsLeft) {depth : Nat}
    (hdepth : max left.nesting right.nesting ≤ depth) (inBlock : Bool) {ts : List Token} {op : Operator}
    (h : sayings ts = left.lexemes ++ .operator op :: right.lexemes) (hspaced : Spaced ts) :
    ∃ ls sign rs l r, ts = ls ++ sign :: rs ∧ sign.isOp op = true ∧
      Spells false depth inBlock (.ofRank left.rank) 0 ls l ∧ l.forgetRaw = left.forgetRaw ∧
      Spells false depth inBlock (.ofRank right.rank) 0 rs r ∧ r.forgetRaw = right.forgetRaw := by
  obtain ⟨hwl, hwr⟩ := List.forall_mem_append.mp hwritable
  obtain ⟨hnl, hnr⟩ := List.forall_mem_append.mp hnested
  obtain ⟨hdl, hdr⟩ := Nat.max_le.mp hdepth
  obtain ⟨ls, sign, rs, rfl, hsign, hls, hrs, hsl, hsr⟩ := writes_operands h hspaced
  obtain ⟨l, hl, hsamel⟩ := ihl hwl hnl depth inBlock ls hdl ⟨hls, hsl⟩
  obtain ⟨r, hr, hsamer⟩ := ihr hwr hnr depth inBlock rs hdr ⟨hrs, hsr⟩
  exact ⟨ls, sign, rs, l, r, rfl, hsign, hl, hsamel, hr, hsamer⟩

/-- **What is written is spelled**, for trees that are nested to the left. -/
theorem spells_of_writes {c : Command} (hwritable : c.Writable) (hnested : c.LeftNested) :
    SpelledAsWritten c := by
  induction c with
  | ifThen asked body => cases hwritable _ (Command.mem_parts_self _)
  | ifElse asked body other => cases hwritable _ (Command.mem_parts_self _)
  | loop head body => cases hwritable _ (Command.mem_parts_self _)
  | simple s =>
    intro depth inBlock ts hdepth h
    obtain ⟨t, us, s', rfl, hstart, hform, hrise, hread, hsame⟩ :=
      simple_written (hwritable _ (Command.mem_parts_self _)) h.1 h.2
    obtain ⟨depth, rfl⟩ : ∃ d, depth = d + 1 := ⟨depth - 1, by simp [Command.nesting] at hdepth; omega⟩
    refine ⟨.simple s', ?_, by rw [Command.forgetRaw, hsame]; rfl⟩
    rw [← hrise]
    exact .simple hstart hform hread
  | block body rs ih =>
    intro depth inBlock ts hdepth h
    obtain ⟨hrs, hbody⟩ := List.forall_mem_cons.mp hwritable
    obtain ⟨opened, inner, rfl, hopen, hinner⟩ := List.map_eq_cons_iff.mp h.1
    obtain ⟨us, closed, after, rfl, hclose, hus, hafter, hspaced, -⟩ :=
      writes_operands hinner (h.2.of_run ⟨[opened], [], by simp⟩)
    obtain ⟨depth, rfl⟩ : ∃ d, depth = d + 1 := ⟨depth - 1, by simp [Command.nesting] at hdepth; omega⟩
    obtain ⟨c', hspells, hsame⟩ := ih hbody (List.forall_mem_cons.mp hnested).2 depth true us
      (Nat.le_of_succ_le_succ hdepth) ⟨hus, hspaced⟩
    refine ⟨.block c' rs, ?_, by rw [Command.forgetRaw, hsame]; rfl⟩
    exact .block (operator_of_unquoted hopen) (hspells.lines_of_rank body.rank_le) hclose
      (redirectionsFrom_written hrs hafter)
  | pipe left right ihl ihr =>
    intro depth inBlock ts hdepth h
    obtain ⟨⟨hrankl, hrankr⟩, hn⟩ := List.forall_mem_cons.mp hnested
    obtain ⟨ls, sign, rs, l, r, rfl, hsign, hl, hsamel, hr, hsamer⟩ :=
      SpelledAsWritten.operands ihl ihr (List.forall_mem_cons.mp hwritable).2 hn hdepth inBlock h.1 h.2
    exact ⟨.pipe l r, (hl.of_rank_le hrankl).pipe hsign (hr.of_rank_le (Nat.le_of_eq hrankr)),
      by simp [Command.forgetRaw, hsamel, hsamer]⟩
  | andThen left right ihl ihr =>
    intro depth inBlock ts hdepth h
    obtain ⟨⟨hrankl, hrankr⟩, hn⟩ := List.forall_mem_cons.mp hnested
    obtain ⟨ls, sign, rs, l, r, rfl, hsign, hl, hsamel, hr, hsamer⟩ :=
      SpelledAsWritten.operands ihl ihr (List.forall_mem_cons.mp hwritable).2 hn hdepth inBlock h.1 h.2
    have hjoin := (hl.of_rank_le hrankl).join (by rw [hsign]; rfl) (hr.of_rank_le hrankr)
    rw [joinLink, if_pos hsign] at hjoin
    exact ⟨.andThen l r, hjoin, by simp [Command.forgetRaw, hsamel, hsamer]⟩
  | orElse left right ihl ihr =>
    intro depth inBlock ts hdepth h
    obtain ⟨⟨hrankl, hrankr⟩, hn⟩ := List.forall_mem_cons.mp hnested
    obtain ⟨ls, sign, rs, l, r, rfl, hsign, hl, hsamel, hr, hsamer⟩ :=
      SpelledAsWritten.operands ihl ihr (List.forall_mem_cons.mp hwritable).2 hn hdepth inBlock h.1 h.2
    have hother : sign.isOp .andThen = false := isOp_eq_false hsign (by decide)
    have hjoin := (hl.of_rank_le hrankl).join (by rw [hsign, Bool.or_true]) (hr.of_rank_le hrankr)
    rw [joinLink, hother, if_neg Bool.false_ne_true] at hjoin
    exact ⟨.orElse l r, hjoin, by simp [Command.forgetRaw, hsamel, hsamer]⟩
  | both left right ihl ihr =>
    intro depth inBlock ts hdepth h
    obtain ⟨hrankr, hn⟩ := List.forall_mem_cons.mp hnested
    obtain ⟨ls, sign, rs, l, r, rfl, hsign, hl, hsamel, hr, hsamer⟩ :=
      SpelledAsWritten.operands ihl ihr (List.forall_mem_cons.mp hwritable).2 hn hdepth inBlock h.1 h.2
    have hsep : Separator false [sign] := ⟨sign, [], rfl, by rw [separates, hsign]; rfl, .nil false⟩
    exact ⟨.both l r, (hl.of_rank_le left.rank_le).both hsep (hr.of_rank_le hrankr),
      by simp [Command.forgetRaw, hsamel, hsamer]⟩

/-- Every tree has tokens that are written for it: those with a blank before each. -/
theorem writes_lexemes (c : Command) : Writes (c.lexemes.map fun l => ⟨l, 0, 0, " "⟩) c := by
  have hrs : ∀ rs : List Redirection, ∀ l ∈ rs.flatMap (·.lexemes), l.unquoted = l := by
    intro rs l hl
    obtain ⟨⟨handle, op, target⟩, -, hl⟩ := List.mem_flatMap.mp hl
    cases target with
    | file name =>
      obtain rfl | hl := List.mem_cons.mp hl
      · rfl
      · rw [List.mem_singleton.mp hl]
        rfl
    | handle d =>
      rw [List.mem_singleton.mp hl]
      rfl
  have hplain : ∀ l ∈ c.lexemes, l.unquoted = l := by
    induction c with
    | simple s =>
      refine List.forall_mem_cons.mpr ⟨rfl, List.forall_mem_append.mpr ⟨fun l hl => ?_, hrs _⟩⟩
      obtain ⟨arg, -, rfl⟩ := List.mem_map.mp hl
      rfl
    | block body rs ih =>
      exact List.forall_mem_cons.mpr
        ⟨rfl, List.forall_mem_append.mpr ⟨ih, List.forall_mem_cons.mpr ⟨rfl, hrs rs⟩⟩⟩
    | pipe left right ihl ihr | both left right ihl ihr | andThen left right ihl ihr
    | orElse left right ihl ihr =>
      exact List.forall_mem_append.mpr ⟨ihl, List.forall_mem_cons.mpr ⟨rfl, ihr⟩⟩
    | ifThen | ifElse | loop => exact List.forall_mem_nil _
  refine ⟨?_, fun t u hpair _ _ => ?_⟩
  · rw [sayings, List.map_map]
    exact (List.map_congr_left hplain).trans (List.map_id _)
  · obtain ⟨l, -, rfl⟩ := List.mem_map.mp (hpair.subset (by simp : u ∈ [t, u]))
    simp

/-- **The sequence grammar is read exactly.** A tree that is nested to the left and at most two hundred levels
deep is read back from what is written for it. Every tree that is read is nested to the left, and its pipelines
have single commands as stages, in the order of the tokens. Tokens without a word `IF`, `FOR` or `REM` are read
exactly if the grammar spells a command with them, as that command, and are no command exactly if they are
line breaks. -/
theorem sequence_grammar :
    (∀ (c : Command) (ts : List Token), c.LeftNested → c.Writable → c.nesting ≤ maxDepth → Writes ts c →
      ∃ c', Command.ofTokens? ts = .ok (some c') ∧ c'.forgetRaw = c.forgetRaw) ∧
    (∀ (ts : List Token) (c : Command), Command.ofTokens? ts = .ok (some c) →
      c.LeftNested ∧ ∀ p ∈ c.parts, InOrder ts p) ∧
    ∀ ts : List Token, (∀ us, us <:+ ts → ¬ StartsForm us) →
      (∀ c, Command.ofTokens? ts = .ok (some c) ↔ ∃ n, Spells false maxDepth false (.lines false) n ts c) ∧
        (Command.ofTokens? ts = .ok none ↔ ∀ t ∈ ts, t.isOp .lineBreak = true) := by
  refine ⟨fun c ts hnested hwritable hdepth hwrites => ?_, fun ts c h => ?_, fun ts hts => ⟨fun c => ?_, ?_⟩⟩
  · obtain ⟨c', hspells, hsame⟩ := spells_of_writes hwritable hnested maxDepth false ts hdepth hwrites
    exact ⟨c', (hspells.lines_of_rank c.rank_le).ofTokens?, hsame⟩
  · obtain ⟨n, hspells⟩ := spells_of_ofTokens? (.inl rfl) h
    exact ⟨hspells.leftNested.1, hspells.inOrder.1⟩
  · refine ⟨spells_of_ofTokens? (.inr hts), ?_⟩
    rintro ⟨n, hspells⟩
    exact hspells.ofTokens?
  · exact ⟨fun h => (breaks_of_ofTokens? h).1, fun h => ofTokens?_of_breaks ⟨h, by simp⟩⟩

/-- The tree of `a x | b && (c & d) > f`. -/
theorem sequence_grammar_block :
    let c : Command := .andThen (.pipe (.simple ⟨"a", ["x"], "", []⟩) (.simple ⟨"b", [], "", []⟩))
      (.block (.both (.simple ⟨"c", [], "", []⟩) (.simple ⟨"d", [], "", []⟩)) [⟨1, .output, .file "f"⟩])
    c.LeftNested ∧ c.Writable ∧ c.nesting ≤ maxDepth ∧
      ∃ c', Command.ofTokens? (c.lexemes.map fun l => ⟨l, 0, 0, " "⟩) = .ok (some c') ∧
        c'.forgetRaw = c.forgetRaw := by
  intro c
  have hnested : c.LeftNested := by simp [c, Command.LeftNested, Command.parts, Command.JoinsLeft, Command.rank]
  have hnames : ∀ name ∈ ["a", "b", "c", "d"], name.map Char.toUpper ∉ ["IF", "FOR", "REM"] := by
    decide +kernel
  simp only [List.mem_cons, List.not_mem_nil, or_false, not_or] at hnames
  have hwritable : c.Writable := by
    simp [c, Command.Writable, Command.parts, Command.WritableNode, SimpleCommand.Writable, Redirection.Writable,
      hnames]
  have hdepth : c.nesting ≤ maxDepth := by decide
  exact ⟨hnested, hwritable, hdepth, sequence_grammar.1 c _ hnested hwritable hdepth (writes_lexemes c)⟩

end Parser

end BatchShell
