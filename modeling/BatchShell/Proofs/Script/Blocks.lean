import BatchShell.Proofs.Parser.Parentheses
import BatchShell.Proofs.Token.Lexemes
import BatchShell.Script

/-!
# Where the loader ends a block

The loader of a script decides from the tokens of a text whether a block is open, and the parser finds the end
of the block when the line is run. They do not always agree. The loader counts a parenthesis as the start of a
block or as text by the token before it; `openBlocks_add_literal` says that the two counts together are the
parentheses that are not closed, unless the loader passes over a remark.

So every disagreement has one of a few causes. A line that was ended too early has a remark, a parenthesis that
the loader took for text, or a token behind an inner block that the parser does not expect there. A command that
was read on although it was complete has a remark, or a simple command with a parenthesis that it does not close.
-/
namespace BatchShell

open Text BatchShell.Parser

/-! ## Counting parentheses -/

/-- No parenthesis is closed that was not opened, with `depth` open before the first token. -/
def Matched : Nat → List Token → Prop
  | _, [] => True
  | depth, t :: ts => (t.isOp .closeParen = true → 0 < depth) ∧ Matched (t.lexeme.depthAfter depth) ts

/-- The scanner closes no parenthesis that is not open. -/
theorem matched_scanFrom (depth pos : Nat) (leading : List Char) (done : List Token) (cs : List Char) :
    ∃ ts, scanFrom depth pos leading done cs = done.reverse ++ ts ∧ Matched depth ts := by
  fun_induction lexemes depth cs generalizing pos leading done with
  | case1 => exact ⟨[], by simp [scanFrom], trivial⟩
  | case2 depth c rest hgap ih =>
    rw [scanFrom_gap hgap]
    exact ih _ _ _
  | case3 depth c rest hgap ih =>
    obtain ⟨size, hstep⟩ : ∃ size, scanFrom depth pos leading done (c :: rest) = _ :=
      scanFrom_cons (Bool.eq_false_iff.mpr hgap)
    obtain ⟨ts, hts, hmatched⟩ := ih (pos + size) [] (⟨_, pos, pos + size, String.ofList leading.reverse⟩ :: done)
    rw [hstep, hts, List.reverse_cons, List.append_assoc]
    refine ⟨_, rfl, fun hclose => ?_, hmatched⟩
    rw [Token.isOp, beq_iff_eq] at hclose
    exact lexemeAt_closeParen hclose

theorem matched_scan (text : String) : Matched 0 (Token.scan text) := by
  obtain ⟨ts, hts, hmatched⟩ := matched_scanFrom 0 0 [] [] text.toList
  rw [Token.scan, hts]
  exact hmatched

theorem depthAfter_eq {depth : Nat} {t : Token} (h : t.isOp .closeParen = true → 0 < depth) :
    (t.lexeme.depthAfter depth : Int) = depth + tokenRise t := by
  obtain ⟨lexeme, start, stop, leading⟩ := t
  cases lexeme with
  | word text quoted => simp [Lexeme.depthAfter, tokenRise, Token.isOp]
  | redirect sign => simp [Lexeme.depthAfter, tokenRise, Token.isOp]
  | operator op =>
    cases op with
    | closeParen =>
      have := h rfl
      simp [Lexeme.depthAfter, tokenRise, Token.isOp]
      omega
    | _ => simp [Lexeme.depthAfter, tokenRise, Token.isOp]

theorem Matched.rise_nonneg {depth : Nat} {us vs : List Token} (h : Matched depth (us ++ vs)) :
    0 ≤ depth + rise us := by
  induction us generalizing depth with
  | nil => simp
  | cons t us ih =>
    have hnext := ih h.2
    rw [depthAfter_eq h.1] at hnext
    rw [rise_cons]
    omega

/-- A parenthesis that stays open in the end of a text stays open in the text. -/
theorem rise_pos_of_suffix {text : String} {us : List Token} (hus : us <:+ Token.scan text) (h : 0 < rise us) :
    0 < rise (Token.scan text) := by
  have hmatched := matched_scan text
  obtain ⟨before, hbefore⟩ := hus
  rw [← hbefore] at hmatched ⊢
  have hrise := hmatched.rise_nonneg
  rw [rise_append]
  omega

/-- A word `REM` that stands in the tokens. -/
def HasRemark (ts : List Token) : Prop := ∃ us, us <:+: ts ∧ keywordAt us = some "REM"

/-- The parentheses of a text as the loader counts them. -/
def blockScan (text : String) : BlockScan :=
  (Token.scan text).foldl (BlockScan.step (firstWord text == "IF")) ⟨0, 0, false, none⟩

theorem openBlocks_eq (text : String) : openBlocks text = (blockScan text).depth := rfl

/-- The loader reads a word as the parser reads it alone. -/
theorem keywordAt_singleton {t : Token} (h : t.isWord = true) :
    keywordAt [t] = some (upper (dropStart (· == '@') t.text)) := by
  obtain ⟨_, hword⟩ := word?_cons h []
  rw [keywordAt, peekWord?, hword]
  simp [glued, upper, dropStart]

/-- Outside remarks one token moves the two counts together as it moves the depth of the scanner. -/
theorem BlockScan.step_count (onIfLine : Bool) {s : BlockScan} {t : Token} (hs : s.inRemark = false)
    (hremark : keywordAt [t] ≠ some "REM") (hclose : t.isOp .closeParen = true → 0 < s.depth + s.literal) :
    (s.step onIfLine t).inRemark = false ∧
      ((s.step onIfLine t).depth + (s.step onIfLine t).literal : Nat) = t.lexeme.depthAfter (s.depth + s.literal) := by
  obtain ⟨lexeme, start, stop, leading⟩ := t
  cases lexeme with
  | redirect sign => simp [step, hs, Token.isOp, Token.isWord, Lexeme.depthAfter]
  | word text quoted =>
    rw [keywordAt_singleton rfl, ne_eq, Option.some.injEq] at hremark
    simp [step, hs, Token.isOp, hremark, Lexeme.depthAfter]
  | operator op =>
    cases op with
    | openParen =>
      cases hblock : opensBlock onIfLine s.previous ⟨.operator .openParen, start, stop, leading⟩ <;>
        simp [step, hs, Token.isOp, Lexeme.depthAfter, hblock] <;> omega
    | closeParen =>
      have hpos := hclose rfl
      by_cases hliteral : 0 < s.literal <;>
        simp [step, hs, Token.isOp, Lexeme.depthAfter, hliteral] <;> omega
    | _ => simp [step, hs, Token.isOp, Token.isWord, Lexeme.depthAfter]

theorem BlockScan.foldl_count (onIfLine : Bool) {s : BlockScan} {ts : List Token} (hs : s.inRemark = false)
    (hremark : ∀ t ∈ ts, keywordAt [t] ≠ some "REM") (hmatched : Matched (s.depth + s.literal) ts) :
    (((ts.foldl (step onIfLine) s).depth + (ts.foldl (step onIfLine) s).literal : Nat) : Int) =
      (s.depth + s.literal : Nat) + rise ts := by
  induction ts generalizing s with
  | nil => simp
  | cons t ts ih =>
    obtain ⟨hclose, hrest⟩ := hmatched
    obtain ⟨ht, hts⟩ := List.forall_mem_cons.mp hremark
    obtain ⟨hs', hcount⟩ := step_count onIfLine hs ht hclose
    rw [← hcount] at hrest
    rw [List.foldl_cons, ih hs' hts hrest, hcount, depthAfter_eq hclose, rise_cons]
    omega

/-- The parentheses that the loader takes for the start of a block or for text, and that are not closed, are
all that are not closed. -/
theorem openBlocks_add_literal {text : String} (h : ¬ HasRemark (Token.scan text)) :
    ((openBlocks text + (blockScan text).literal : Nat) : Int) = rise (Token.scan text) := by
  have hremark : ∀ t ∈ Token.scan text, keywordAt [t] ≠ some "REM" := by
    intro t ht hword
    obtain ⟨before, after, hts⟩ := List.append_of_mem ht
    exact h ⟨[t], ⟨before, after, by simp [hts]⟩, hword⟩
  have hcount := BlockScan.foldl_count (firstWord text == "IF") (s := ⟨0, 0, false, none⟩) rfl hremark
    (matched_scan text)
  rw [openBlocks_eq, blockScan, hcount]
  simp

/-! ## Where the parser ends a block -/

/-- A simple command in the tokens opens a parenthesis as text and does not close it. -/
def LeavesOpen (ts : List Token) : Prop :=
  ∃ t us c, t :: us <:+: ts ∧ t.isOperator = false ∧ bare (simple t us) = .ok (c, []) ∧ 0 < rise (t :: us)

/-- The tokens of a command are all closed, unless a simple command or a remark in it leaves a parenthesis
open. -/
theorem leavesOpen_of_ofTokens? {ts : List Token} {found : Option Command}
    (h : Command.ofTokens? ts = .ok found) (hpos : 0 < rise ts) : HasRemark ts ∨ LeavesOpen ts := by
  cases found with
  | none =>
    rw [(breaks_of_ofTokens? h).rise_eq] at hpos
    cases hpos
  | some c =>
    obtain ⟨n, hspells⟩ := spells_of_ofTokens? (.inl rfl) h
    obtain ⟨leaf, hleaf, hkind, hrise⟩ := hspells.unclosed_leaf hpos
    cases hkind with
    | @simple t us c hstart hread => exact .inr ⟨t, us, c, hleaf, hstart, hread, hrise⟩
    | remark _ hword _ => exact .inl ⟨_, hleaf, hword⟩

theorem ofTokens?_of_parse {text : String} {found : Option Command} (h : Command.parse text = .ok found) :
    Command.ofTokens? (Token.scan text) = .ok found := by
  unfold Command.parse at h
  split at h
  · cases h
  · exact h

/-- A text that lacks a closing parenthesis has one that stays open, or a block that is not read to its end. -/
theorem unclosed_of_parse {text : String} {o : Nat} (h : Command.parse text = .error ⟨.unclosedParen, o⟩) :
    0 < rise (Token.scan text) ∨ Stray o (Token.scan text) := by
  unfold Command.parse at h
  split at h
  · cases h
  · obtain ⟨us, hus, hrise⟩ | hstray := missing_of_ofTokens? h
    · exact .inl (rise_pos_of_suffix hus hrise)
    · exact .inr hstray

/-! ## How the loader extends a line -/

/-- Why a physical line is added to the text before it. -/
inductive Extension where
  /-- The text ends in a caret. -/
  | caret
  /-- A block is open. -/
  | block
  /-- The line goes on with the `ELSE` of an `IF`. -/
  | otherwise
  deriving DecidableEq

namespace Extension

/-- Why the loader adds the line `next` to `text`, if it does. -/
def of? (isRemark : Bool) (text next : String) : Option Extension :=
  if continues text then some .caret
  else if !isRemark && 0 < openBlocks text then some .block
  else if firstWord text == "IF" && (trimEnd text).toList.getLast? == some ')' && startsWithElse next then
    some .otherwise
  else none

/-- The text with a line added. -/
def grow (text next : String) : Extension → String
  | .caret => String.ofList text.toList.dropLast ++ next
  | .block =>
    match LineKind.ofText next with
    | .command => text ++ "\n" ++ next
    | _ => text
  | .otherwise => text ++ " " ++ trimStart next

variable {isRemark : Bool} {text next : String}

theorem openBlocks_pos (h : of? isRemark text next = some .block) : 0 < openBlocks text := by
  unfold of? at h
  split at h
  · cases h
  · split at h
    · rename_i hblock
      simpa using (Bool.and_eq_true_iff.mp hblock).2
    · split at h <;> cases h

theorem openBlocks_eq_zero (h : of? isRemark text next = none) : isRemark = true ∨ openBlocks text = 0 := by
  unfold of? at h
  split at h
  · cases h
  · split at h
    · cases h
    · rename_i hblock
      simp only [Bool.and_eq_true, Bool.not_eq_true', decide_eq_true_eq, not_and, Nat.not_lt] at hblock
      cases isRemark with
      | true => exact .inl rfl
      | false => exact .inr (Nat.le_zero.mp (hblock rfl))

end Extension

/-- From `text` with the lines `rest` to come, the loader gets to `text'` with `rest'` to come. -/
inductive Grows (isRemark : Bool) : String → List String → String → List String → Prop where
  | done {text rest} : Grows isRemark text rest text rest
  | step {text next rest how text' rest'} (hhow : Extension.of? isRemark text next = some how)
      (hmore : Grows isRemark (how.grow text next) rest text' rest') :
      Grows isRemark text (next :: rest) text' rest'

theorem extendLine_cons (isRemark : Bool) (text next : String) (rest : List String) :
    extendLine isRemark text (next :: rest) =
      match Extension.of? isRemark text next with
      | some how => extendLine isRemark (how.grow text next) rest
      | none => (text, next :: rest) := by
  rw [extendLine, Extension.of?]
  split
  · rfl
  · split
    · simp only [Extension.grow]
      cases LineKind.ofText next <;> rfl
    · split <;> rfl

/-- The loader extends a line step by step, and stops where there is no reason to go on. -/
theorem extendLine_grows (isRemark : Bool) (text : String) (rest : List String) :
    Grows isRemark text rest (extendLine isRemark text rest).1 (extendLine isRemark text rest).2 ∧
      ∀ next more, (extendLine isRemark text rest).2 = next :: more →
        Extension.of? isRemark (extendLine isRemark text rest).1 next = none := by
  induction rest generalizing text with
  | nil => exact ⟨.done, fun next more heq => by cases heq⟩
  | cons next rest ih =>
    rw [extendLine_cons]
    cases hhow : Extension.of? isRemark text next with
    | none =>
      refine ⟨.done, fun next' more heq => ?_⟩
      cases heq
      exact hhow
    | some how => exact ⟨.step hhow (ih _).1, (ih _).2⟩

theorem Grows.suffix {isRemark : Bool} {text text' : String} {rest rest' : List String}
    (h : Grows isRemark text rest text' rest') : rest' <:+ rest := by
  induction h with
  | done => exact List.suffix_refl _
  | step _ _ ih => exact ih.trans (List.suffix_cons _ _)

/-- A command of a script is a physical line with the lines that the loader added to it. -/
theorem extended_of_mem_assemble {number : Nat} {lines : List String} {l : ScriptLine}
    (hl : l ∈ assemble number lines) (hkind : l.kind = .command) :
    ∃ place first rest, l.number = number + place ∧ lines.drop place = first :: rest ∧
      l.text = (extendLine (firstWord first == "REM") first rest).1 := by
  fun_induction assemble number lines with
  | case1 => cases hl
  | case2 number first rest hfirst extended ih =>
    obtain rfl | hl := List.mem_cons.mp hl
    · exact ⟨0, first, rest, rfl, rfl, rfl⟩
    · obtain ⟨place, first', rest', hnumber, hdrop, htext⟩ := ih hl
      have hsuffix : extended.2 <:+ rest := (extendLine_grows _ first rest).1.suffix
      rw [List.suffix_iff_eq_drop.mp hsuffix, List.drop_drop] at hdrop
      refine ⟨1 + (rest.length - extended.2.length + place), first', rest', by omega, ?_, htext⟩
      rw [Nat.add_comm 1, List.drop_succ_cons]
      exact hdrop
  | case3 number first rest hfirst ih =>
    obtain rfl | hl := List.mem_cons.mp hl
    · exact absurd hkind hfirst
    · obtain ⟨place, first', rest', hnumber, hdrop, htext⟩ := ih hl
      exact ⟨place + 1, first', rest', by omega, hdrop, htext⟩

/-- **Why the loader and the parser end a block in different places.** A command of a script grew from the
physical line with its number. If the loader ended it with lines to come and the parser misses a parenthesis, there
is a remark, a parenthesis that the loader took for text, or a stray token. If the loader added a line because a
block was open and the parser takes the text before for a command, there is a remark, or a simple command that
leaves a parenthesis open. -/
theorem Script.block_disagreements (name source : String) (l : ScriptLine)
    (hl : l ∈ (Script.load name source).lines) (hkind : l.kind = .command) :
    ∃ first rest left, (physicalLines source).drop (l.number - 1) = first :: rest ∧
      extendLine (firstWord first == "REM") first rest = (l.text, left) ∧
      (left ≠ [] → ∀ o, Command.parse l.text = .error ⟨.unclosedParen, o⟩ →
        firstWord first = "REM" ∨ HasRemark (Token.scan l.text) ∨ 0 < (blockScan l.text).literal ∨
          Stray o (Token.scan l.text)) ∧
      ∀ text next more found, Grows (firstWord first == "REM") first rest text (next :: more) →
        Extension.of? (firstWord first == "REM") text next = some .block → Command.parse text = .ok found →
        HasRemark (Token.scan text) ∨ LeavesOpen (Token.scan text) := by
  obtain ⟨place, first, rest, hnumber, hdrop, htext⟩ := extended_of_mem_assemble hl hkind
  have hplace : l.number - 1 = place := by omega
  have hstop := (extendLine_grows (firstWord first == "REM") first rest).2
  rw [← htext] at hstop
  refine ⟨first, rest, _, by rw [hplace, hdrop], by rw [htext], ?_, ?_⟩
  · intro hleft o hparse
    obtain ⟨next, more, hnext⟩ := List.exists_cons_of_ne_nil hleft
    obtain hremark | hzero := Extension.openBlocks_eq_zero (hstop next more hnext)
    · exact .inl (beq_iff_eq.mp hremark)
    · by_cases hremark : HasRemark (Token.scan l.text)
      · exact .inr (.inl hremark)
      · have hcount := openBlocks_add_literal hremark
        obtain hrise | hstray := unclosed_of_parse hparse
        · exact .inr (.inr (.inl (by omega)))
        · exact .inr (.inr (.inr hstray))
  · intro text next more found _ hblock hparse
    have hopen := Extension.openBlocks_pos hblock
    by_cases hremark : HasRemark (Token.scan text)
    · exact .inl hremark
    · have hcount := openBlocks_add_literal hremark
      exact leavesOpen_of_ofTokens? (ofTokens?_of_parse hparse) (by omega)

/-- A block that an `IF` after another command opens: the parser misses its end, and there is a cause. -/
theorem Script.block_disagreements_after_operator :
    Command.parse "ECHO a & IF 1==1 (" = .error ⟨.unclosedParen, 17⟩ ∧
      (firstWord "ECHO a & IF 1==1 (" = "REM" ∨ HasRemark (Token.scan "ECHO a & IF 1==1 (") ∨
        0 < (blockScan "ECHO a & IF 1==1 (").literal ∨ Stray 17 (Token.scan "ECHO a & IF 1==1 (")) := by
  have hparse : Command.parse "ECHO a & IF 1==1 (" = .error ⟨.unclosedParen, 17⟩ := by decide +kernel
  obtain ⟨first, rest, left, hlines, hextend, hcause, -⟩ := Script.block_disagreements "t.bat"
    "ECHO a & IF 1==1 (\nECHO b\n)\n" ⟨"ECHO a & IF 1==1 (", 1, .command⟩ (by decide +kernel) rfl
  have hphysical : physicalLines "ECHO a & IF 1==1 (\nECHO b\n)\n" = ["ECHO a & IF 1==1 (", "ECHO b", ")"] := by
    decide +kernel
  rw [hphysical] at hlines
  cases hlines
  have hleft : extendLine (firstWord "ECHO a & IF 1==1 (" == "REM") "ECHO a & IF 1==1 (" ["ECHO b", ")"] =
      ("ECHO a & IF 1==1 (", ["ECHO b", ")"]) := by decide +kernel
  cases hleft.symm.trans hextend
  exact ⟨hparse, hcause (by simp) 17 hparse⟩

/-- The loader ends a line at a block that an `IF` opens after another command, and goes on behind a
parenthesis that is the text of an `ECHO`. -/
theorem Script.blocks_ended_elsewhere :
    (Script.load "t.bat" "ECHO a & IF 1==1 (\nECHO b\n)\n").lines.map (·.text) =
        ["ECHO a & IF 1==1 (", "ECHO b", ")"] ∧
      Command.parse "ECHO a & IF 1==1 (" = .error ⟨.unclosedParen, 17⟩ ∧
      (Script.load "t.bat" "IF 1==1 ECHO (hi\nECHO b\n").lines.map (·.text) = ["IF 1==1 ECHO (hi\nECHO b"] ∧
      (Command.parse "IF 1==1 ECHO (hi").isOk = true := by
  decide +kernel

end BatchShell
