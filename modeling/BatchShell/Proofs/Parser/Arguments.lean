import Mathlib.Data.List.Chain
import BatchShell.Proofs.Parser.Compounds

/-!
# The arguments of a simple command, kept twice

A simple command keeps its arguments as a list and as the text that they were written as. Some built-in commands read
the one, some the other. Both are put together token by token, while a redirection may stand anywhere: before the name,
between two arguments, and between two tokens that would be glued without it.

The tokens of a simple command fall into pieces. A piece is a `TextRun`, a token of text with the tokens glued to it,
or a `RedirectRun`, a sign with its target. The first run of text is the name. The list has the other runs, the text
has them with the white space before each, and neither has anything of a redirection.

* `SimpleScan.Tracks`: what the reader knows of the pieces so far, with a lemma for each way in which it goes on.
* `simpleFrom_tracks`: a whole command.
* `Spells.simplesStandIn`: where the simple commands of a tree were read.
* `rawArgs_keeps_args`: the list and the text of every simple command that is no remark.
-/
namespace BatchShell.Parser

/-! ## Pieces -/

/-- Words and parentheses can be text. -/
def isText (t : Token) : Bool := t.isWord || t.isOp .openParen || t.isOp .closeParen

/-- What the tokens say, one after the other. -/
def textOf (ts : List Token) : String := String.join (ts.map Token.text)

/-- A token of text, and those that follow it without white space. -/
structure TextRun where
  first : Token
  more : List Token
  allText : ∀ t ∈ first :: more, isText t = true
  glued : ∀ t ∈ more, t.leading = ""

namespace TextRun

def tokens (w : TextRun) : List Token := w.first :: w.more

/-- What the run says. -/
def text (w : TextRun) : String := textOf w.tokens

/-- The run as it was written, with the white space before it. -/
def written (w : TextRun) : String := w.first.leading ++ w.text

/-- A run of one token. -/
def single (t : Token) (ht : isText t = true) : TextRun where
  first := t
  more := []
  allText := List.forall_mem_singleton.mpr ht
  glued := List.forall_mem_nil _

/-- The run with one token more. -/
def glue (w : TextRun) (t : Token) (ht : isText t = true) (hleading : t.leading = "") : TextRun where
  first := w.first
  more := w.more ++ [t]
  allText := by
    rw [← List.cons_append]
    exact List.forall_mem_append.mpr ⟨w.allText, List.forall_mem_singleton.mpr ht⟩
  glued := List.forall_mem_append.mpr ⟨w.glued, List.forall_mem_singleton.mpr hleading⟩

variable (w : TextRun) {t : Token} (ht : isText t = true) (hleading : t.leading = "")

@[simp] theorem tokens_single : (single t ht).tokens = [t] := rfl

@[simp] theorem tokens_glue : (w.glue t ht hleading).tokens = w.tokens ++ [t] := rfl

@[simp] theorem text_single : (single t ht).text = t.text := by
  simp [text, textOf]

@[simp] theorem text_glue : (w.glue t ht hleading).text = w.text ++ t.text := by
  simp [text, textOf]

@[simp] theorem written_single : (single t ht).written = t.leading ++ t.text := by
  rw [written, text_single]
  rfl

@[simp] theorem written_glue : (w.glue t ht hleading).written = w.written ++ t.text := by
  rw [written, text_glue, written, String.append_assoc]
  rfl

end TextRun

/-- The tokens of the target of a sign: none if it copies a stream, and otherwise a word and the words glued to it. -/
def IsTarget (how : RedirectSign) (target : List Token) : Prop :=
  match how.copyOf with
  | some _ => target = []
  | none => ∃ u us, target = u :: us ∧ u.isWord = true ∧ ∀ v ∈ us, isGlued v = true

/-- A redirection: the token of its sign and those of its target. -/
structure RedirectRun where
  sign : Token
  how : RedirectSign
  target : List Token
  isSign : sign.lexeme = .redirect how
  isTarget : IsTarget how target

/-- The redirection that a sign and its target give. -/
def RedirectRun.redirection (r : RedirectRun) : Redirection where
  handle := streamOf r.how
  op := r.how.op
  target := match r.how.copyOf with
    | some d => .handle d.val
    | none => .file (textOf r.target)

/-- A piece of a simple command. -/
inductive Piece where
  | text (run : TextRun)
  | redirect (run : RedirectRun)

namespace Piece

def tokens : Piece → List Token
  | text run => run.tokens
  | redirect run => run.sign :: run.target

def text? : Piece → Option TextRun
  | text run => some run
  | redirect _ => none

def redirect? : Piece → Option RedirectRun
  | text _ => none
  | redirect run => some run

/-- Text that directly follows text has white space before it. -/
def Apart : Piece → Piece → Prop
  | text _, text run => run.first.leading ≠ ""
  | _, _ => True

end Piece

/-- All the tokens of the pieces. -/
def tokensOf (ps : List Piece) : List Token := ps.flatMap Piece.tokens

/-- The name and the arguments among the pieces. -/
def textsOf (ps : List Piece) : List TextRun := ps.filterMap Piece.text?

/-- The redirections among the pieces. -/
def redirectsOf (ps : List Piece) : List RedirectRun := ps.filterMap Piece.redirect?

/-- The arguments among the pieces, as they were written. -/
def writtenOf (ps : List Piece) : String := String.join ((textsOf ps).tail.map TextRun.written)

section

variable (ps : List Piece) (w : TextRun) (r : RedirectRun)

@[simp] theorem tokensOf_text : tokensOf (ps ++ [.text w]) = tokensOf ps ++ w.tokens := by
  simp [tokensOf, Piece.tokens]

@[simp] theorem tokensOf_redirect : tokensOf (ps ++ [.redirect r]) = tokensOf ps ++ r.sign :: r.target := by
  simp [tokensOf, Piece.tokens]

@[simp] theorem textsOf_text : textsOf (ps ++ [.text w]) = textsOf ps ++ [w] := by
  simp [textsOf, Piece.text?]

@[simp] theorem textsOf_redirect : textsOf (ps ++ [.redirect r]) = textsOf ps := by
  simp [textsOf, Piece.text?]

@[simp] theorem redirectsOf_text : redirectsOf (ps ++ [.text w]) = redirectsOf ps := by
  simp [redirectsOf, Piece.redirect?]

@[simp] theorem redirectsOf_redirect : redirectsOf (ps ++ [.redirect r]) = redirectsOf ps ++ [r] := by
  simp [redirectsOf, Piece.redirect?]

@[simp] theorem writtenOf_redirect : writtenOf (ps ++ [.redirect r]) = writtenOf ps := by
  rw [writtenOf, textsOf_redirect, writtenOf]

/-- The first text is the name, and no argument. -/
theorem writtenOf_text :
    writtenOf (ps ++ [.text w]) = if textsOf ps = [] then "" else writtenOf ps ++ w.written := by
  rw [writtenOf, textsOf_text]
  cases htexts : textsOf ps with
  | nil => rfl
  | cons v vs => simp [writtenOf, htexts]

end

/-! ## Reading the pieces -/

namespace SimpleScan

/-- Where no word goes on, a text is written down with the white space before it, unless it is the first. -/
theorem addText_rawArgs_new {s : SimpleScan} (h : s.Named) {leading : String}
    (hnew : s.current = none ∨ leading ≠ "") (text : String) :
    (s.addText leading text).rawArgs = if s.words = [] then s.rawArgs else s.rawArgs ++ (leading ++ text) := by
  cases hcurrent : s.current with
  | none =>
    cases hname : s.name with
    | none => simp [SimpleScan.addText, words, hcurrent, hname, h hname]
    | some name => simp [SimpleScan.addText, words, hcurrent, hname, String.append_assoc]
  | some word =>
    have hleading := hnew.resolve_left (by simp [hcurrent])
    rw [(addText_rawArgs (by simp [hcurrent]) hleading text).1]
    simp [words, hcurrent]

theorem addText_current (s : SimpleScan) (leading text : String) :
    (s.addText leading text).current.isSome = true := by
  unfold SimpleScan.addText
  split
  · split <;> rfl
  · rfl

/-- The reader `s` has read the pieces `ps`. It has a current word if the last of them is text, which may go on. -/
structure Tracks (s : SimpleScan) (ps : List Piece) : Prop where
  named : s.Named
  words : s.words = (textsOf ps).map TextRun.text
  raw : s.rawArgs = writtenOf ps
  redirections : s.redirections.reverse = (redirectsOf ps).map RedirectRun.redirection
  apart : ps.IsChain Piece.Apart
  current : s.current.isSome = true ↔ ∃ before w, ps = before ++ [.text w]

namespace Tracks

variable {s : SimpleScan} {ps : List Piece} {t : Token}

theorem start : Tracks .start [] where
  named := fun _ => rfl
  words := rfl
  raw := rfl
  redirections := rfl
  apart := .nil
  current := by simp [SimpleScan.start]

/-- A token that is not glued to the word before it starts another. -/
theorem addText (h : s.Tracks ps) (ht : isText t = true) (hnew : s.current = none ∨ t.leading ≠ "") :
    (s.addText t.leading t.text).Tracks (ps ++ [.text (.single t ht)]) := by
  obtain ⟨hwords, hnamed, hredirections⟩ := addText_words h.named hnew t.text
  refine ⟨hnamed, ?_, ?_, ?_, ?_, ?_⟩
  · rw [hwords, h.words, textsOf_text, List.map_append, List.map_singleton, TextRun.text_single]
  · have hnone : textsOf ps = [] ↔ s.words = [] := by rw [h.words, List.map_eq_nil_iff]
    rw [writtenOf_text, TextRun.written_single, ← h.raw, addText_rawArgs_new h.named hnew]
    simp only [hnone]
    split
    · rename_i hempty
      rw [h.raw, writtenOf, hnone.mpr hempty]
      rfl
    · rfl
  · rw [hredirections, h.redirections, redirectsOf_text]
  · refine h.apart.append (.singleton _) fun p hp q hq => ?_
    cases hq
    cases p with
    | redirect r => trivial
    | text w =>
      obtain ⟨before, hps⟩ := List.getLast?_eq_some_iff.mp hp
      have hcurrent := h.current.mpr ⟨before, w, hps⟩
      exact hnew.resolve_left (Option.isSome_iff_ne_none.mp hcurrent)
  · exact ⟨fun _ => ⟨ps, _, rfl⟩, fun _ => addText_current ..⟩

/-- The last text may go on. The words before it are the name and the arguments so far. -/
theorem current_eq {w : TextRun} (h : s.Tracks (ps ++ [.text w])) :
    s.current = some w.text ∧ s.name.toList ++ s.args.reverse = (textsOf ps).map TextRun.text := by
  obtain ⟨word, hword⟩ := Option.isSome_iff_exists.mp (h.current.mpr ⟨ps, w, rfl⟩)
  have hwords := h.words
  rw [textsOf_text, List.map_append, SimpleScan.words, hword, ← List.append_assoc] at hwords
  obtain ⟨hclosed, hlast⟩ := List.append_inj' hwords rfl
  exact ⟨hword.trans (congrArg some (List.singleton_inj.mp hlast)), hclosed⟩

/-- A token that is glued to the word before it goes on that word. -/
theorem glueText {w : TextRun} (h : s.Tracks (ps ++ [.text w])) (ht : isText t = true) (hleading : t.leading = "") :
    (s.addText t.leading t.text).Tracks (ps ++ [.text (w.glue t ht hleading)]) := by
  obtain ⟨hcurrent, hclosed⟩ := h.current_eq
  have hglue : s.addText t.leading t.text = { s with
      current := some (w.text ++ t.text)
      rawArgs := if s.name.isSome then s.rawArgs ++ t.text else s.rawArgs } := by
    simp [SimpleScan.addText, hcurrent, hleading]
  rw [hglue]
  refine ⟨h.named, ?_, ?_, ?_, ?_, ?_⟩
  · rw [textsOf_text, List.map_append, ← hclosed, List.map_singleton, TextRun.text_glue]
    simp [SimpleScan.words]
  · have hraw := h.raw
    rw [writtenOf_text] at hraw ⊢
    cases hname : s.name with
    | none =>
      -- the word that goes on is the name
      have hnil : textsOf ps = [] := by simpa [hname, h.named hname] using hclosed.symm
      simpa [hnil] using hraw
    | some name =>
      have hcons : textsOf ps ≠ [] := by
        intro hnil
        simp [hname, hnil] at hclosed
      simp only [hcons, if_false] at hraw ⊢
      simp [hraw, String.append_assoc]
  · simpa using h.redirections
  · obtain ⟨hbefore, -, hlast⟩ := List.isChain_append.mp h.apart
    refine hbefore.append (.singleton _) fun p hp q hq => ?_
    cases hq
    have hapart := hlast p hp _ rfl
    cases p <;> exact hapart
  · exact ⟨fun _ => ⟨ps, _, rfl⟩, fun _ => rfl⟩

/-- A redirection ends the word before it. -/
theorem addRedirection (h : s.Tracks ps) (r : RedirectRun) :
    (s.addRedirection r.redirection).Tracks (ps ++ [.redirect r]) := by
  obtain ⟨hwords, hnamed, hnone, hredirections⟩ := closeWord_words h.named
  refine ⟨hnamed, ?_, ?_, ?_, ?_, ?_⟩
  · rw [textsOf_redirect, ← h.words]
    exact hwords
  · rw [writtenOf_redirect, ← h.raw]
    exact s.closeWord_rawArgs
  · simp [SimpleScan.addRedirection, hredirections, h.redirections]
  · refine h.apart.append (.singleton _) fun p hp q hq => ?_
    cases hq
    cases p <;> trivial
  · constructor
    · intro hsome
      rw [SimpleScan.addRedirection, hnone] at hsome
      cases hsome
    · rintro ⟨before, w, hps⟩
      cases (List.append_inj' hps rfl).2

/-- One token of text more, glued or not. -/
theorem text (h : s.Tracks ps) (ht : isText t = true) :
    ∃ ps', (s.addText t.leading t.text).Tracks ps' ∧ tokensOf ps' = tokensOf ps ++ [t] := by
  by_cases hnew : s.current = none ∨ t.leading ≠ ""
  · exact ⟨_, h.addText ht hnew, by simp⟩
  · simp only [not_or, ne_eq, not_not] at hnew
    obtain ⟨before, w, rfl⟩ := h.current.mp (Option.isSome_iff_ne_none.mpr hnew.1)
    exact ⟨_, h.glueText ht hnew.2, by simp⟩

/-- What stays open of the literal parentheses does not matter. -/
theorem parens (h : s.Tracks ps) (n : Nat) : Tracks { s with parens := n } ps :=
  ⟨h.named, h.words, h.raw, h.redirections, h.apart, h.current⟩

/-- The command that was read has the texts and the redirections of the pieces. -/
theorem finish (h : s.Tracks ps) :
    s.finish.name = String.ofList ((((textsOf ps).map TextRun.text).headD "").toList.dropWhile (· == '@')) ∧
      s.finish.args = (textsOf ps).tail.map TextRun.text ∧ s.finish.rawArgs = writtenOf ps ∧
      s.finish.redirections = (redirectsOf ps).map RedirectRun.redirection := by
  obtain ⟨hname, hargs, hredirections⟩ := finish_eq h.named
  rw [h.words] at hname hargs
  exact ⟨hname, hargs.trans List.map_tail.symm, s.finish_rawArgs.trans h.raw, hredirections.trans h.redirections⟩

end Tracks

end SimpleScan

theorem glued_eq_textOf (ts : List Token) : (glued ts).1 = textOf (ts.takeWhile isGlued) := by
  rw [glued_text, textOf]
  induction (ts.takeWhile isGlued).map Token.text with
  | nil => rfl
  | cons text texts ih => rw [List.foldr_cons, ih, String.join_cons]

/-- A redirection that was read is a sign with its target. -/
theorem exists_redirectRun {t : Token} {how : RedirectSign} (hsign : t.lexeme = .redirect how) {ts rest : List Token}
    {found : Redirection} (h : bare (redirectTarget t how ts) = .ok (found, rest)) :
    ∃ r : RedirectRun, found = r.redirection ∧ t :: ts = r.sign :: r.target ++ rest := by
  obtain ⟨d, hcopy, heq⟩ | ⟨hcopy, u, us, rfl, hword, heq⟩ | ⟨-, -, heq⟩ := redirectTarget_cases t how ts
  · cases heq.symm.trans h
    exact ⟨⟨t, how, [], hsign, by simp [IsTarget, hcopy]⟩, by simp [RedirectRun.redirection, hcopy], rfl⟩
  · cases heq.symm.trans h
    have htarget : IsTarget how (u :: us.takeWhile isGlued) := by
      simp only [IsTarget, hcopy]
      exact ⟨u, _, rfl, hword, fun v hv => List.mem_takeWhile_imp hv⟩
    refine ⟨⟨t, how, _, hsign, htarget⟩, ?_, ?_⟩
    · simp [RedirectRun.redirection, hcopy, textOf, glued_eq_textOf]
    · simp [List.takeWhile_append_dropWhile]
  · cases heq.symm.trans h

/-- What the reader takes falls into pieces. A redirection takes its target along, so the induction is on the number of
tokens. -/
theorem simpleFrom_tracks {s : SimpleScan} {ps : List Piece} (hs : s.Tracks ps) {ts rest : List Token}
    {c : SimpleCommand} (h : bare (simpleFrom s ts) = .ok (c, rest)) :
    ∃ s' : SimpleScan, ∃ ps', s'.Tracks ps' ∧ c = s'.finish ∧ tokensOf ps ++ ts = tokensOf ps' ++ rest := by
  induction hlen : ts.length using Nat.strongRecOn generalizing s ps ts with
  | _ len ih =>
    cases ts with
    | nil =>
      cases (simpleFrom_nil s).symm.trans h
      exact ⟨s, ps, hs, rfl, rfl⟩
    | cons t us =>
      have hus : us.length < len := by simp at hlen; omega
      have more {s' : SimpleScan} {ps' : List Piece} (hs' : s'.Tracks ps')
          (htokens : tokensOf ps' = tokensOf ps ++ [t]) (hread : bare (simpleFrom s' us) = .ok (c, rest)) :
          ∃ s'' : SimpleScan, ∃ ps'', s''.Tracks ps'' ∧ c = s''.finish ∧
            tokensOf ps ++ t :: us = tokensOf ps'' ++ rest := by
        obtain ⟨s'', ps'', hs'', hc, hall⟩ := ih us.length hus hs' hread rfl
        refine ⟨s'', ps'', hs'', hc, ?_⟩
        rw [← hall, htokens, List.append_assoc]
        rfl
      obtain ⟨lexeme, start, stop, leading⟩ := t
      rw [simpleFrom_cons] at h
      cases lexeme with
      | word text quoted =>
        obtain ⟨ps', hs', htokens⟩ := hs.text (t := ⟨.word text quoted, start, stop, leading⟩) rfl
        exact more hs' htokens h
      | redirect how =>
        obtain ⟨⟨found, after⟩, htarget, hread⟩ := Except.bind_eq_ok_iff.mp h
        have hle := of_bare htarget
        obtain ⟨r, rfl, htokens⟩ := exists_redirectRun rfl htarget
        obtain ⟨s', ps', hs', hc, hall⟩ := ih after.length (by omega) (hs.addRedirection r) hread rfl
        refine ⟨s', ps', hs', hc, ?_⟩
        rw [← hall, htokens, tokensOf_redirect, List.append_assoc]
      | operator op =>
        cases op with
        | openParen =>
          obtain ⟨ps', hs', htokens⟩ := hs.text (t := ⟨.operator .openParen, start, stop, leading⟩) rfl
          exact more (hs'.parens _) htokens h
        | closeParen =>
          dsimp only at h
          split at h
          · obtain ⟨ps', hs', htokens⟩ := hs.text (t := ⟨.operator .closeParen, start, stop, leading⟩) rfl
            exact more (hs'.parens _) htokens h
          · cases h
            exact ⟨s, ps, hs, rfl, rfl⟩
        | _ =>
          cases h
          exact ⟨s, ps, hs, rfl, rfl⟩

/-! ## The simple commands of a tree -/

/-- The command is a remark: some of the tokens start with the word `REM`, and the remark swallows the others. -/
def IsRemark (ts : List Token) (c : SimpleCommand) : Prop :=
  ∃ inBlock t us, t :: us <:+: ts ∧ keywordAt (t :: us) = some "REM" ∧ (remark inBlock us).2.val = [] ∧
    c = (remark inBlock us).1

/-- The command is a remark, or some of the tokens are read as the command. -/
def StandsIn (ts : List Token) (c : SimpleCommand) : Prop :=
  IsRemark ts c ∨ ∃ run, run <:+: ts ∧ bare (simpleFrom .start run) = .ok (c, [])

/-- The simple commands among `cs` stand in the tokens. -/
def SimplesStandIn (ts : List Token) (cs : List Command) : Prop := ∀ c, .simple c ∈ cs → StandsIn ts c

section

variable {ts us : List Token} {c : SimpleCommand} {cs cs' : List Command}

theorem StandsIn.widen (h : StandsIn ts c) (hts : ts <:+: us) : StandsIn us c := by
  obtain ⟨inBlock, t, more, hrun, hremark⟩ | ⟨run, hrun, hread⟩ := h
  · exact .inl ⟨inBlock, t, more, hrun.trans hts, hremark⟩
  · exact .inr ⟨run, hrun.trans hts, hread⟩

namespace SimplesStandIn

theorem widen (h : SimplesStandIn ts cs) (hts : ts <:+: us) : SimplesStandIn us cs :=
  fun c hc => (h c hc).widen hts

theorem single (h : StandsIn ts c) : SimplesStandIn ts [.simple c] := by
  intro d hd
  cases Command.simple.inj (List.mem_singleton.mp hd)
  exact h

theorem cons (h : SimplesStandIn ts cs) {node : Command} (hnode : ∀ c, node ≠ .simple c) :
    SimplesStandIn ts (node :: cs) := by
  intro c hc
  obtain hc | hc := List.mem_cons.mp hc
  · exact absurd hc.symm (hnode c)
  · exact h c hc

theorem append (h : SimplesStandIn ts cs) (h' : SimplesStandIn ts cs') : SimplesStandIn ts (cs ++ cs') :=
  fun c hc => (List.mem_append.mp hc).elim (h c) (h' c)

end SimplesStandIn

/-- Every simple command of a tree stands in the tokens that spell the tree. -/
theorem Spells.simplesStandIn {forms : Bool} {depth : Nat} {inBlock : Bool} {part : Part} {n : Int}
    {run : List Token} {tree : Command} (h : Spells forms depth inBlock part n run tree) :
    SimplesStandIn run tree.parts := by
  induction h with
  | simple hstart _ hread =>
    rw [simple_eq_simpleFrom hstart] at hread
    exact .single (.inr ⟨_, List.infix_refl _, hread⟩)
  | @remark _ inBlock t us _ hword hall =>
    exact .single (.inl ⟨inBlock, t, us, List.infix_refl _, hword, hall, rfl⟩)
  | emptyBlock => exact .cons (.single (.inr ⟨[], List.nil_infix, simpleFrom_nil .start⟩)) nofun
  | @block _ _ opened body _ closed after _ _ _ _ _ ih =>
    have hbody : body <:+: opened :: (body ++ closed :: after) := ⟨[opened], closed :: after, by simp⟩
    exact (ih.widen hbody).cons nofun
  | ifThen _ _ _ ih | loop _ _ _ ih => exact (ih.widen (List.suffix_append _ _).isInfix).cons nofun
  | @ifElse _ _ head _ _ body _ _ word _ other _ _ _ _ _ _ ih ih' =>
    have hbody : body <:+: head ++ (body ++ (word ++ other)) := ⟨head, word ++ other, by simp⟩
    have hother : other <:+: head ++ (body ++ (word ++ other)) := ⟨head ++ body ++ word, [], by simp⟩
    exact ((ih.widen hbody).append (ih'.widen hother)).cons nofun
  | enclosed _ ih | stage _ ih | link _ ih | item _ ih => exact ih
  | inline _ _ ih => exact ih
  | @pipe _ _ _ left _ bar _ right _ _ _ _ ih ih' =>
    have hright : right <:+: left ++ bar :: right := ⟨left ++ [bar], [], by simp⟩
    exact ((ih.widen (List.prefix_append _ _).isInfix).append (ih'.widen hright)).cons nofun
  | @join _ _ _ left l sign _ right r _ _ _ ih ih' =>
    have hright : right <:+: left ++ sign :: right := ⟨left ++ [sign], [], by simp⟩
    have hboth := (ih.widen (List.prefix_append left (sign :: right)).isInfix).append (ih'.widen hright)
    obtain heq | heq := joinLink_cases sign l r <;> rw [heq] <;> exact hboth.cons nofun
  | @both _ _ _ _ left _ between _ right _ _ _ _ ih ih' =>
    have hright : right <:+: left ++ (between ++ right) := ⟨left ++ between, [], by simp⟩
    exact ((ih.widen (List.prefix_append _ _).isInfix).append (ih'.widen hright)).cons nofun
  | @lines _ _ _ breaks _ run _ _ ending _ _ _ ih => exact ih.widen ⟨breaks, ending, by simp⟩

end

/-- **The arguments of a simple command are the same words in the list and in the text.** Every simple command of a
tree that is read is a remark or was read from tokens that fall into pieces, words of text and redirections. The first
word is the name. The list has the other words, and the text has the same words in the same order, each with the white
space before its first token. There is white space before an argument unless it directly follows a redirection. All
that belongs to redirections is among the redirections, and nowhere else. -/
theorem rawArgs_keeps_args {ts : List Token} {tree : Command} (h : Command.ofTokens? ts = .ok (some tree))
    {c : SimpleCommand} (hc : .simple c ∈ tree.parts) :
    IsRemark ts c ∨ ∃ ps : List Piece, tokensOf ps <:+: ts ∧ bare (simpleFrom .start (tokensOf ps)) = .ok (c, []) ∧
      ps.IsChain Piece.Apart ∧
      c.name = String.ofList ((((textsOf ps).map TextRun.text).headD "").toList.dropWhile (· == '@')) ∧
      c.args = (textsOf ps).tail.map TextRun.text ∧
      c.rawArgs = String.join ((textsOf ps).tail.map fun w => w.first.leading ++ w.text) ∧
      c.redirections = (redirectsOf ps).map RedirectRun.redirection := by
  obtain ⟨n, hspells⟩ := spells_of_ofTokens? (.inl rfl) h
  obtain hremark | ⟨run, hrun, hread⟩ := hspells.simplesStandIn c hc
  · exact .inl hremark
  · right
    obtain ⟨s, ps, hs, rfl, htokens⟩ := simpleFrom_tracks .start hread
    obtain rfl : run = tokensOf ps := by simpa [tokensOf] using htokens
    exact ⟨ps, hrun, hread, hs.apart, hs.finish⟩

/-- The name behind a redirection, glued tokens, literal parentheses, and an argument that only a redirection parts
from the one before it. -/
theorem rawArgs_keeps_args_interleaved :
    let ts := Token.scan ">f ECHO \"a b\"c(d 2>&1x) e"
    let c : SimpleCommand := ⟨"ECHO", ["\"a b\"c(d", "x)", "e"], " \"a b\"c(dx) e",
      [⟨1, .output, .file "f"⟩, ⟨2, .output, .handle 1⟩]⟩
    Command.ofTokens? ts = .ok (some (.simple c)) ∧ Command.simple c ∈ (Command.simple c).parts ∧
      ∃ ps, tokensOf ps <:+: ts ∧ ps.IsChain Piece.Apart ∧ c.args = (textsOf ps).tail.map TextRun.text ∧
        c.rawArgs = String.join ((textsOf ps).tail.map fun w => w.first.leading ++ w.text) := by
  intro ts c
  have hread : Command.ofTokens? ts = .ok (some (.simple c)) := by decide +kernel
  refine ⟨hread, List.mem_singleton_self _, ?_⟩
  obtain ⟨inBlock, t, us, -, -, -, hremark⟩ | ⟨ps, hrun, -, hapart, -, hargs, hraw, -⟩ :=
    rawArgs_keeps_args hread (List.mem_singleton_self _)
  · have hname : c.name = "REM" := congrArg SimpleCommand.name hremark
    exact absurd hname (by decide)
  · exact ⟨ps, hrun, hapart, hargs, hraw⟩

end BatchShell.Parser
