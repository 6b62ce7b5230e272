import Mathlib.Data.List.Infix
import BatchShell.Proofs.Parser.Compounds

/-!
# Every tree can be written

A tree can be written if its conditions, loops and simple commands can, the body before an `ELSE` is a block, and no
operator other than a line break follows a body without parentheses (`Command.Expressible`). There are then tokens
that are written for it (`Written`), and whatever is written for it is read back.

* `exists_written`: a tree that can be written has tokens.
* `compounds_readBack`: trees and the lines that are written for them.
-/
namespace BatchShell

/-! ## What can be written -/

/-- A test whose words are read back. -/
def Test.Expressible : Test → Prop
  | .compare left op _ => left.map Char.toUpper ∉ Parser.ifKeywords ∧ if op = .equal then '=' ∉ left.toList
      else ∀ as bs, left.toList = as ++ '=' :: '=' :: bs → as.count '"' % 2 = 1
  | _ => True

/-- A kind of loop whose words are read back. -/
def LoopKind.Expressible : LoopKind → Prop
  | .recursive (some root) => root.toList.head? ≠ some '%'
  | .lines options => options.toList.head? ≠ some '"' ∧ options.toList.getLast? ≠ some '"'
  | _ => True

/-- The text of the arguments is the arguments, each after some white space. -/
def SimpleCommand.KeepsSpaces (c : SimpleCommand) : Prop :=
  ∃ gaps : List String, gaps.length = c.args.length ∧ (∀ gap ∈ gaps, gap ≠ "") ∧
    c.rawArgs = String.join (List.zipWith (· ++ ·) gaps c.args)

namespace Command

/-- Is the command a block? -/
def isBlock : Command → Bool
  | .block .. => true
  | _ => false

/-- Does the command end in a body without parentheses? -/
def openEnded : Command → Bool
  | .simple _ | .block .. => false
  | .ifThen _ body | .ifElse _ _ body | .loop _ body => !body.isBlock
  | .pipe _ right | .both _ right | .andThen _ right | .orElse _ right => right.openEnded

/-- How deep commands nest. The parentheses of a body are no level of their own. -/
def levels : Command → Nat
  | .simple _ => 1
  | .block body _ => body.levels + 1
  | .ifThen _ body | .loop _ body => body.levels + (if body.isBlock then 0 else 1)
  | .ifElse _ body other =>
    max (body.levels + (if body.isBlock then 0 else 1)) (other.levels + (if other.isBlock then 0 else 1))
  | .pipe left right | .both left right | .andThen left right | .orElse left right => max left.levels right.levels

/-- The tree can be written. -/
def Expressible : Command → Prop
  | .simple c => c.Writable ∧ c.KeepsSpaces
  | .block body rs => body.Expressible ∧ ∀ r ∈ rs, r.Writable
  | .ifThen asked body => asked.test.Expressible ∧ body.Expressible ∧ body.rank = 0
  | .ifElse asked body other =>
    asked.test.Expressible ∧ body.Expressible ∧ body.isBlock = true ∧ other.Expressible ∧ other.rank = 0
  | .loop head body => head.kind.Expressible ∧ Parser.Divided head.rawSet.toList head.items ∧
      body.Expressible ∧ body.rank = 0
  | .pipe left right =>
    left.Expressible ∧ right.Expressible ∧ left.rank ≤ 1 ∧ right.rank = 0 ∧ left.openEnded = false
  | .andThen left right | .orElse left right =>
    left.Expressible ∧ right.Expressible ∧ left.rank ≤ 2 ∧ right.rank ≤ 1 ∧ left.openEnded = false
  | .both left right => left.Expressible ∧ right.Expressible ∧ right.rank ≤ 2

theorem levels_pos (c : Command) : 0 < c.levels := by
  induction c with
  | simple => exact Nat.zero_lt_one
  | block => exact Nat.succ_pos _
  | ifThen _ _ ih | loop _ _ ih => exact Nat.add_pos_left ih _
  | ifElse _ _ _ ih _ => exact Nat.lt_of_lt_of_le (Nat.add_pos_left ih _) (Nat.le_max_left _ _)
  | pipe _ _ ih _ | both _ _ ih _ | andThen _ _ ih _ | orElse _ _ ih _ =>
    exact Nat.lt_of_lt_of_le ih (Nat.le_max_left _ _)

end Command

namespace Parser

/-! ## Heads -/

/-- A word after a blank. -/
def wordToken (w : String) : Token := ⟨.word w false, 0, 0, " "⟩

theorem saysWord_wordToken (w : String) : SaysWord [wordToken w] w :=
  ⟨wordToken w, [], rfl, rfl, by simp, by simp [wordToken, Token.text, Lexeme.text]⟩

theorem unglued_wordToken (w : String) (us : List Token) : Unglued (wordToken w :: us) := by
  intro t vs heq
  cases heq
  simp [isGlued, wordToken]

theorem words_wordTokens (ws : List String) : Words (ws.map wordToken) ws := by
  induction ws with
  | nil => exact .nil
  | cons w ws ih =>
    refine .cons (saysWord_wordToken w) (fun t us heq => ?_) ih
    cases heq
    simp [wordToken]

/-- A word in upper case. -/
theorem upper_eq {w : String} (h : w.toList.map Char.toUpper = w.toList) : w.map Char.toUpper = w := by
  rw [← String.toList_inj, String.toList_map, h]

theorem formWord_self {w : String} (h : w.toList.map Char.toUpper = w.toList) (hat : w.toList.head? ≠ some '@') :
    FormWord w w := by
  rw [FormWord, dropWhile_at hat, upper_eq h]

theorem exists_flagWords (negated ignoreCase : Bool) : ∃ ws, FlagWords negated ignoreCase ws := by
  have hnot : "NOT".map Char.toUpper = "NOT" := upper_eq (by decide)
  have hignore : "/I".map Char.toUpper = "/I" := upper_eq (by decide)
  cases negated <;> cases ignoreCase
  · exact ⟨_, .neither⟩
  · exact ⟨_, .ignoring hignore⟩
  · exact ⟨_, .negated hnot⟩
  · exact ⟨_, .negatedIgnoring hnot hignore⟩

theorem exists_testWords {asked : Test} (h : asked.Expressible) : ∃ ws, TestWords asked ws := by
  cases asked with
  | exist path => exact ⟨_, .exist (v := "EXIST") (upper_eq (by decide))⟩
  | defined name => exact ⟨_, .defined (v := "DEFINED") (upper_eq (by decide))⟩
  | errorLevel level => exact ⟨_, .errorLevel (v := "ERRORLEVEL") (upper_eq (by decide))⟩
  | compare left op right =>
    obtain ⟨hleft, hequals⟩ := h
    by_cases hop : op = .equal
    · subst hop
      exact ⟨_, .apart hleft (by simpa using hequals)⟩
    · rw [if_neg hop] at hequals
      refine ⟨_, .keyword (v := op.text) hleft hequals hop ?_⟩
      cases op <;> exact upper_eq (by decide)

theorem exists_ifWritten {asked : Condition} (h : asked.test.Expressible) :
    ∃ more, IfWritten (wordToken "IF" :: more) asked := by
  obtain ⟨flags, hflags⟩ := exists_flagWords asked.negated asked.ignoreCase
  obtain ⟨tests, htests⟩ := exists_testWords h
  have hif : FormWord "IF" "IF" := formWord_self (by decide) (by decide)
  exact ⟨_, .mk (saysWord_wordToken "IF") hif hflags (words_wordTokens flags) htests (words_wordTokens tests)⟩

theorem kindWritten_switch (key : String) {kind : LoopKind} (h : (key, kind) ∈ loopSwitches) :
    KindWritten [wordToken key] kind := by
  have hupper : ∀ p ∈ loopSwitches, p.1.toList.map Char.toUpper = p.1.toList := by decide
  exact .switch ((upper_eq (hupper _ h)).symm ▸ h) (words_wordTokens [key])

theorem exists_kindWritten {kind : LoopKind} (h : kind.Expressible) : ∃ ts, KindWritten ts kind := by
  cases kind with
  | items => exact ⟨[], .items⟩
  | directories => exact ⟨_, kindWritten_switch "/D" (by simp [loopSwitches])⟩
  | range => exact ⟨_, kindWritten_switch "/L" (by simp [loopSwitches])⟩
  | recursive root =>
    cases root with
    | none => exact ⟨_, kindWritten_switch "/R" (by simp [loopSwitches])⟩
    | some root => exact ⟨_, .rooted (upper_eq (by decide)) h (words_wordTokens ["/R", root])⟩
  | lines options =>
    have hspace : (⟨.word ("\"" ++ options ++ "\"") true, 0, 0, " "⟩ : Token).leading ≠ "" := by simp
    exact ⟨_, .optioned (upper_eq (by decide)) (words_wordTokens ["/F"]) rfl hspace h.1 h.2⟩

theorem variableWritten_token (letter : Char) :
    VariableWritten [wordToken (String.ofList ['%', '%', letter])] letter := by
  refine .mk (saysWord_wordToken _) (fun t us heq => ?_) (fun t us text heq => ?_) (.inr String.toList_ofList)
  · cases heq
    simp [wordToken]
  · cases heq
    simp [wordToken]

theorem exists_setWritten (raw : String) : ∃ ts, SetWritten ts raw := by
  by_cases hraw : raw = ""
  · exact ⟨[], by simp, by simp, rfl, by simp, hraw⟩
  · refine ⟨[wordToken raw], ?_, ?_, rfl, ?_, ?_⟩
    · simp [wordToken, Token.isOp]
    · intro us hus
      have hplain : ∀ t ∈ us, t.isOperator = false := by
        intro t ht
        rw [List.mem_singleton.mp (hus.subset ht)]
        rfl
      exact Int.le_of_eq (rise_of_no_operator hplain).symm
    · intro t us heq
      cases heq
      exact hraw
    · exact String.append_empty.symm

theorem exists_forWritten {kept : LoopHead} (hkind : kept.kind.Expressible)
    (hitems : Divided kept.rawSet.toList kept.items) : ∃ more, ForWritten (wordToken "FOR" :: more) kept := by
  obtain ⟨switch, hswitch⟩ := exists_kindWritten hkind
  obtain ⟨set, hset⟩ := exists_setWritten kept.rawSet
  have hfor : FormWord "FOR" "FOR" := formWord_self (by decide) (by decide)
  have hopen : (⟨.operator .openParen, 0, 0, " "⟩ : Token).isOp .openParen = true := rfl
  have hclose : (⟨.operator .closeParen, 0, 0, ""⟩ : Token).isOp .closeParen = true := rfl
  exact ⟨_, .mk (saysWord_wordToken "FOR") hfor hswitch (variableWritten_token kept.letter)
    (words_wordTokens ["IN"]) (upper_eq (by decide)) hopen hset hitems hclose (saysWord_wordToken "DO")
    (upper_eq (by decide))⟩

/-! ## Simple commands -/

/-- Redirections, each token after a blank. -/
def redirectTokens (rs : List Redirection) : List Token :=
  (rs.flatMap (·.lexemes)).map fun l => ⟨l, 0, 0, " "⟩

theorem sayings_redirectTokens (rs : List Redirection) : sayings (redirectTokens rs) = rs.flatMap (·.lexemes) := by
  rw [sayings, redirectTokens, List.map_map]
  refine (List.map_congr_left fun l hl => ?_).trans (List.map_id _)
  obtain ⟨r, -, hl⟩ := List.mem_flatMap.mp hl
  unfold Redirection.lexemes at hl
  split at hl
  · obtain rfl | hl := List.mem_cons.mp hl
    · rfl
    · rw [List.mem_singleton.mp hl]
      rfl
  · rw [List.mem_singleton.mp hl]
    rfl

/-- Arguments, each after its white space. -/
def argTokens (gaps args : List String) : List Token :=
  List.zipWith (fun gap arg => ⟨.word arg false, 0, 0, gap⟩) gaps args

theorem argTokens_written {gaps args : List String} (h : gaps.length = args.length) :
    sayings (argTokens gaps args) = args.map (.word · false) ∧ (argTokens gaps args).length = args.length ∧
      (∀ t ∈ argTokens gaps args, t.leading ∈ gaps) ∧
      rawText (argTokens gaps args) = String.join (List.zipWith (· ++ ·) gaps args) := by
  induction gaps generalizing args with
  | nil =>
    cases args with
    | nil => exact ⟨rfl, rfl, by simp [argTokens], rfl⟩
    | cons arg args => cases h
  | cons gap gaps ih =>
    cases args with
    | nil => cases h
    | cons arg args =>
      obtain ⟨hsaid, hlength, hleading, hraw⟩ := ih (Nat.succ.inj h)
      refine ⟨congrArg (Lexeme.word arg false :: ·) hsaid, congrArg Nat.succ hlength, ?_, ?_⟩
      · exact List.forall_mem_cons.mpr ⟨List.mem_cons_self, fun t ht => List.mem_cons_of_mem _ (hleading t ht)⟩
      · rw [List.zipWith_cons_cons, String.join_cons, ← hraw]
        exact String.join_cons

theorem exists_simpleWritten {c : SimpleCommand} (hc : c.Writable) (hraw : c.KeepsSpaces) :
    ∃ ts, SimpleWritten ts c ∧ Unglued ts := by
  obtain ⟨gaps, hlength, hgaps, hraw⟩ := hraw
  obtain ⟨hsaid, hcount, hleading, htext⟩ := argTokens_written hlength
  have hblank : ∀ t ∈ redirectTokens c.redirections, t.leading ≠ "" := by
    intro t ht
    obtain ⟨l, -, rfl⟩ := List.mem_map.mp ht
    simp
  have hspaces : ∀ t ∈ wordToken c.name :: (argTokens gaps c.args ++ redirectTokens c.redirections),
      t.leading ≠ "" := by
    refine List.forall_mem_cons.mpr ⟨by simp [wordToken], List.forall_mem_append.mpr ⟨fun t ht => ?_, hblank⟩⟩
    exact hgaps _ (hleading t ht)
  refine ⟨_, ⟨hc, ?_, fun t u hpair _ _ => hspaces u (hpair.subset (by simp)), ?_⟩, ?_⟩
  · rw [sayings, List.map_cons, List.map_append, SimpleCommand.lexemes, ← hsaid, ← sayings_redirectTokens]
    rfl
  · rw [List.tail_cons, List.take_left' hcount, htext]
    exact hraw
  · intro t us heq
    have := hspaces t (by rw [heq]; simp)
    simp [isGlued, this]

/-! ## Trees -/

section

variable {depth : Nat} {greedy : Bool} {ts : List Token} {c : Command}

/-- A command that binds tighter is also a part that binds more loosely. -/
theorem Written.of_rank_le {r r' : Nat} (h : Written depth greedy (.ofRank r) ts c) (hle : r ≤ r') :
    Written depth greedy (.ofRank r') ts c := by
  induction r', hle using Nat.le_induction with
  | base => exact h
  | succ r' _ ih =>
    match r', ih with
    | 0, ih => exact ih.stage
    | 1, ih => exact ih.link
    | 2, ih => exact ih.item
    | _ + 3, ih => exact ih

theorem Written.alone {oneLine : Bool} (h : Written depth greedy (.sequence oneLine) ts c) :
    Written depth greedy (.lines oneLine) ts c := by
  have hlines : Written depth greedy (.lines oneLine) ([] ++ (ts ++ [])) c := .lines (.nil oneLine) h (.nil oneLine)
  rwa [List.nil_append, List.append_nil] at hlines

/-- A command that is no block does not start with a parenthesis. -/
theorem Written.no_paren (h : Written depth greedy .command ts c) (hc : c.isBlock = false) :
    ∀ t us, ts = t :: us → t.isOp .openParen = false := by
  suffices hplain : ∃ t us, ts = t :: us ∧ t.isOperator = false by
    obtain ⟨t, us, rfl, hplain⟩ := hplain
    intro t' us' heq
    cases heq
    exact Bool.eq_false_iff.mpr fun hopen => by cases hplain.symm.trans (isOperator_of_isOp hopen)
  cases h with
  | simple hts =>
    obtain ⟨t, us, rfl, hstart, -⟩ := hts.read
    exact ⟨t, us, rfl, hstart⟩
  | block hbody =>
    cases hbody with
    | enclosed => cases hc
  | ifThen hhead _ | ifElse hhead _ _ _ _ =>
    obtain ⟨⟨t, us, rfl, ht, -⟩⟩ := hhead
    exact ⟨t, _, rfl, isOperator_of_isWord ht⟩
  | loop hhead _ =>
    obtain ⟨⟨t, us, rfl, ht, -⟩⟩ := hhead
    exact ⟨t, _, rfl, isOperator_of_isWord ht⟩

/-- There are tokens for the tree, not glued to what stands before them. -/
def HasWriting (depth : Nat) (c : Command) : Prop :=
  ∃ ts, Written depth c.openEnded (.ofRank c.rank) ts c ∧ Unglued ts

/-- A single command can be the body of a condition or a loop. -/
theorem HasWriting.body (h : ∀ depth, c.levels ≤ depth → HasWriting depth c) (hrank : c.rank = 0)
    (hdepth : c.levels + (if c.isBlock then 0 else 1) ≤ depth + 1) :
    ∃ ts, Written depth (!c.isBlock) .body ts c := by
  cases hblock : c.isBlock with
  | true =>
    obtain ⟨ts, hts, -⟩ := h (depth + 1) (by simpa [hblock] using hdepth)
    obtain ⟨body, rs, rfl⟩ : ∃ body rs, c = .block body rs := by
      cases c with
      | block body rs => exact ⟨body, rs, rfl⟩
      | _ => cases hblock
    cases hts with
    | block hbody => exact ⟨ts, hbody⟩
  | false =>
    obtain ⟨ts, hts, hglue⟩ := h depth (by simpa [hblock] using hdepth)
    rw [hrank] at hts
    exact ⟨ts, .inline (hts.no_paren hblock) hglue hts.stage.link.item.alone⟩

/-- Two operands and what stands between them. -/
theorem HasWriting.operands {left right : Command} {r r' : Nat}
    (ihl : ∀ depth, left.levels ≤ depth → HasWriting depth left)
    (ihr : ∀ depth, right.levels ≤ depth → HasWriting depth right)
    (hdepth : max left.levels right.levels ≤ depth) (hl : left.rank ≤ r) (hr : right.rank ≤ r') :
    ∃ ls rs, Written depth left.openEnded (.ofRank r) ls left ∧ Written depth right.openEnded (.ofRank r') rs right ∧
      Unglued ls := by
  obtain ⟨hdl, hdr⟩ := Nat.max_le.mp hdepth
  obtain ⟨ls, hls, hglue⟩ := ihl depth hdl
  obtain ⟨rs, hrs, -⟩ := ihr depth hdr
  exact ⟨ls, rs, hls.of_rank_le hl, hrs.of_rank_le hr, hglue⟩

end

/-- An operator after a blank. -/
def opToken (op : Operator) : Token := ⟨.operator op, 0, 0, " "⟩

@[simp] theorem isOp_opToken (op : Operator) : (opToken op).isOp op = true := beq_self_eq_true _

theorem unglued_opToken (op : Operator) (us : List Token) : Unglued (opToken op :: us) := by
  intro t vs heq
  cases heq
  rfl

theorem eq_succ_of_levels_le {c : Command} {depth : Nat} (h : c.levels ≤ depth) : ∃ d, depth = d + 1 :=
  ⟨depth - 1, by have := c.levels_pos; omega⟩

/-- **A tree that can be written has tokens.** -/
theorem exists_written {c : Command} (h : c.Expressible) (depth : Nat) (hdepth : c.levels ≤ depth) :
    HasWriting depth c := by
  induction c generalizing depth with
  | simple s =>
    obtain ⟨depth, rfl⟩ := eq_succ_of_levels_le hdepth
    obtain ⟨ts, hts, hglue⟩ := exists_simpleWritten h.1 h.2
    exact ⟨ts, .simple hts, hglue⟩
  | block body rs ih =>
    obtain ⟨depth, rfl⟩ := eq_succ_of_levels_le hdepth
    obtain ⟨ts, hts, -⟩ := ih h.1 depth (Nat.le_of_succ_le_succ hdepth)
    have hinner : Written depth body.openEnded (.lines false) ts body := (hts.of_rank_le body.rank_le).alone
    refine ⟨_, .block (.enclosed (isOp_opToken .openParen) hinner (isOp_opToken .closeParen)
      ⟨h.2, sayings_redirectTokens rs⟩), ?_⟩
    exact unglued_opToken .openParen _
  | ifThen asked body ih =>
    obtain ⟨hasked, hbody, hrank⟩ := h
    obtain ⟨depth, rfl⟩ := eq_succ_of_levels_le hdepth
    obtain ⟨more, hhead⟩ := exists_ifWritten hasked
    obtain ⟨ts, hts⟩ := HasWriting.body (ih hbody) hrank hdepth
    exact ⟨_, .ifThen hhead hts, unglued_wordToken "IF" _⟩
  | ifElse asked body other ihbody ihother =>
    obtain ⟨hasked, hbody, hblock, hother, hrank⟩ := h
    obtain ⟨depth, rfl⟩ := eq_succ_of_levels_le hdepth
    obtain ⟨hdbody, hdother⟩ := Nat.max_le.mp hdepth
    obtain ⟨more, hhead⟩ := exists_ifWritten hasked
    have hbodyRank : body.rank = 0 := by
      cases body with
      | block => rfl
      | _ => cases hblock
    obtain ⟨ts, hts⟩ := HasWriting.body (ihbody hbody) hbodyRank hdbody
    obtain ⟨us, hus⟩ := HasWriting.body (ihother hother) hrank hdother
    rw [hblock] at hts
    exact ⟨_, .ifElse hhead hts (words_wordTokens ["ELSE"]) (upper_eq (by decide)) hus, unglued_wordToken "IF" _⟩
  | loop head body ih =>
    obtain ⟨hkind, hitems, hbody, hrank⟩ := h
    obtain ⟨depth, rfl⟩ := eq_succ_of_levels_le hdepth
    obtain ⟨more, hhead⟩ := exists_forWritten hkind hitems
    obtain ⟨ts, hts⟩ := HasWriting.body (ih hbody) hrank hdepth
    exact ⟨_, .loop hhead hts, unglued_wordToken "FOR" _⟩
  | pipe left right ihl ihr =>
    obtain ⟨hl, hr, hrankl, hrankr, hclosed⟩ := h
    obtain ⟨ls, rs, hls, hrs, hglue⟩ := HasWriting.operands (ihl hl) (ihr hr) hdepth hrankl (Nat.le_of_eq hrankr)
    rw [hclosed] at hls
    exact ⟨_, .pipe hls (isOp_opToken .pipe) hrs, hglue.append (unglued_opToken .pipe rs)⟩
  | andThen left right ihl ihr =>
    obtain ⟨hl, hr, hrankl, hrankr, hclosed⟩ := h
    obtain ⟨ls, rs, hls, hrs, hglue⟩ := HasWriting.operands (ihl hl) (ihr hr) hdepth hrankl hrankr
    rw [hclosed] at hls
    have hsign : ((opToken .andThen).isOp .andThen || (opToken .andThen).isOp .orElse) = true := rfl
    exact ⟨_, .join hls hsign hrs, hglue.append (unglued_opToken .andThen rs)⟩
  | orElse left right ihl ihr =>
    obtain ⟨hl, hr, hrankl, hrankr, hclosed⟩ := h
    obtain ⟨ls, rs, hls, hrs, hglue⟩ := HasWriting.operands (ihl hl) (ihr hr) hdepth hrankl hrankr
    rw [hclosed] at hls
    have hsign : ((opToken .orElse).isOp .andThen || (opToken .orElse).isOp .orElse) = true := rfl
    exact ⟨_, .join hls hsign hrs, hglue.append (unglued_opToken .orElse rs)⟩
  | both left right ihl ihr =>
    obtain ⟨hl, hr, hrankr⟩ := h
    obtain ⟨ls, rs, hls, hrs, hglue⟩ := HasWriting.operands (ihl hl) (ihr hr) hdepth left.rank_le hrankr
    -- a line break ends even a body without parentheses
    have hsign : separates false (opToken .lineBreak) = true := rfl
    exact ⟨_, .both hls hsign (fun _ => rfl) (.nil false) hrs, hglue.append (unglued_opToken .lineBreak _)⟩

/-! ## Lines -/

/-- **Conditions and loops are read back.** What is written for a tree is read as that tree, and everything that can be
written is written by some tokens. -/
theorem compounds_readBack :
    (∀ greedy ts c, Written maxDepth greedy (.lines false) ts c → Command.ofTokens? ts = .ok (some c)) ∧
    ∀ c : Command, c.Expressible → c.levels ≤ maxDepth → ∃ ts, Written maxDepth c.openEnded (.lines false) ts c := by
  refine ⟨fun greedy ts c h => ?_, fun c hc hlevels => ?_⟩
  · have hread := h.readsBack (lineEnd ts) false [] (.nil false)
    rw [List.append_nil] at hread
    rw [ofTokens?_eq, hread]
    rfl
  · obtain ⟨ts, hts, -⟩ := exists_written hc maxDepth hlevels
    exact ⟨ts, (hts.of_rank_le c.rank_le).alone⟩

theorem isItem_of_plain {cs : List Char} (hne : cs ≠ []) (h : ∀ c ∈ cs, separatesItems c = false) : IsItem cs := by
  refine ⟨hne, fun as c bs heq hc => ?_⟩
  cases (h c (by simp [heq])).symm.trans hc

/-- The command `ECHO` with one argument. -/
theorem simpleWritten_echo (arg : String) :
    SimpleWritten (["ECHO", arg].map wordToken) ⟨"ECHO", [arg], " " ++ arg, []⟩ := by
  have hname : "ECHO".map Char.toUpper ∉ ["IF", "FOR", "REM"] := by
    rw [upper_eq (by decide)]
    decide
  have hat : "ECHO".toList.head? ≠ some '@' := by decide
  refine ⟨⟨hat, hname, by simp⟩, rfl, fun t u hpair _ _ => ?_, ?_⟩
  · obtain ⟨w, -, rfl⟩ := List.mem_map.mp (hpair.subset (by simp : u ∈ [t, u]))
    simp [wordToken]
  · simp [rawText, wordToken, Token.text, Lexeme.text]

/-- The line `IF /I NOT "X Y"== a (ECHO b) ELSE FOR /F "eol=;" %%i IN (p (q)) DO ECHO z`, with a blank before each
token. -/
theorem compounds_readBack_else_loop :
    let echo (arg : String) : Command := .simple ⟨"ECHO", [arg], " " ++ arg, []⟩
    let kept : LoopHead := ⟨'i', .lines "eol=;", ["p", "(", "q", ")"], "p ( q )"⟩
    let c : Command := .ifElse ⟨true, true, .compare "\"X Y\"" .equal "a"⟩ (.block (echo "b") []) (.loop kept (echo "z"))
    let ifHead : List Token := ["IF", "/I", "NOT", "\"X Y\"" ++ "==", "a"].map wordToken
    let options : Token := ⟨.word ("\"" ++ "eol=;" ++ "\"") true, 0, 0, " "⟩
    let set : List Token := [wordToken "p", opToken .openParen, wordToken "q", opToken .closeParen]
    let forHead : List Token := [wordToken "FOR"] ++ ([wordToken "/F"] ++ [options] ++
      ([wordToken (String.ofList ['%', '%', 'i'])] ++ ([wordToken "IN"] ++ opToken .openParen ::
        (set ++ opToken .closeParen :: [wordToken "DO"]))))
    let ts : List Token := ifHead ++ (opToken .openParen :: (["ECHO", "b"].map wordToken ++ [opToken .closeParen]) ++
      ([wordToken "ELSE"] ++ (forHead ++ ["ECHO", "z"].map wordToken)))
    Written maxDepth true (.lines false) ts c ∧ Command.ofTokens? ts = .ok (some c) ∧
      c.Expressible ∧ c.levels ≤ maxDepth ∧ ∃ us, Written maxDepth c.openEnded (.lines false) us c := by
  intro echo kept c ifHead options set forHead ts
  have hleft : "\"X Y\"".map Char.toUpper ∉ ifKeywords := by
    rw [upper_eq (by decide)]
    decide
  have hquotes : '=' ∉ "\"X Y\"".toList ∧ "\"X Y\"".toList.count '"' % 2 = 0 := by decide
  have hif : IfWritten ifHead ⟨true, true, .compare "\"X Y\"" .equal "a"⟩ :=
    .mk (saysWord_wordToken "IF") (formWord_self (by decide) (by decide))
      (.ignoringNegated (upper_eq (by decide)) (upper_eq (by decide))) (words_wordTokens ["/I", "NOT"])
      (.joinedLeft hquotes.1 hquotes.2) (words_wordTokens ["\"X Y\"" ++ "==", "a"])
  have hitems : Divided "p ( q )".toList ["p", "(", "q", ")"] := by
    have hchars : "p ( q )".toList = ['p'] ++ ' ' :: (['('] ++ ' ' :: (['q'] ++ ' ' :: [')'])) := by decide
    have htexts : ["p", "(", "q", ")"] = [['p'], ['('], ['q'], [')']].map String.ofList := by decide
    have hitem : ∀ ch ∈ ['p', '(', 'q', ')'], IsItem [ch] := by
      intro ch hch
      refine isItem_of_plain (by simp) (List.forall_mem_singleton.mpr ?_)
      simp only [List.mem_cons, List.not_mem_nil, or_false] at hch
      obtain rfl | rfl | rfl | rfl := hch <;> rfl
    rw [hchars, htexts]
    exact .item (hitem 'p' (by simp)) rfl rfl (.item (hitem '(' (by simp)) rfl rfl
      (.item (hitem 'q' (by simp)) rfl rfl (.last (hitem ')' (by simp)))))
  have hset : SetWritten set "p ( q )" := by
    refine ⟨by decide, fun us hus => ?_, by decide, fun t us heq => ?_, by decide⟩
    · rw [← List.mem_inits] at hus
      revert us
      decide
    · rw [← (List.cons.inj heq).1]
      decide
  have hfor : ForWritten forHead kept :=
    .mk (saysWord_wordToken "FOR") (formWord_self (by decide) (by decide))
      (.optioned (upper_eq (by decide)) (words_wordTokens ["/F"]) rfl (by decide) (by decide) (by decide))
      (variableWritten_token 'i') (words_wordTokens ["IN"]) (upper_eq (by decide)) rfl hset hitems rfl
      (saysWord_wordToken "DO") (upper_eq (by decide))
  have hbody : Written 199 false .body (opToken .openParen :: (["ECHO", "b"].map wordToken ++ [opToken .closeParen]))
      (.block (echo "b") []) :=
    .enclosed rfl (Written.simple (simpleWritten_echo "b")).stage.link.item.alone rfl ⟨by simp, rfl⟩
  have hother : Written 199 true .body (forHead ++ ["ECHO", "z"].map wordToken) (.loop kept (echo "z")) := by
    have hecho : Written 198 true .body (["ECHO", "z"].map wordToken) (echo "z") := by
      refine .inline (fun t us heq => ?_) (unglued_wordToken "ECHO" _)
        (Written.simple (simpleWritten_echo "z")).stage.link.item.alone
      rw [← (List.cons.inj heq).1]
      rfl
    refine .inline (fun t us heq => ?_) (unglued_wordToken "FOR" _) (Written.loop hfor hecho).stage.link.item.alone
    rw [← (List.cons.inj heq).1]
    rfl
  have hwritten : Written maxDepth true (.lines false) ts c :=
    (Written.ifElse hif hbody (words_wordTokens ["ELSE"]) (upper_eq (by decide)) hother).stage.link.item.alone
  have hecho (arg : String) : (echo arg).Expressible := by
    refine ⟨(simpleWritten_echo arg).writable, [" "], rfl, by simp, ?_⟩
    simp [String.join_cons]
  have hc : c.Expressible := by
    refine ⟨⟨hleft, ?_⟩, ⟨hecho "b", by simp⟩, rfl, ⟨⟨by decide, by decide⟩, hitems, hecho "z", rfl⟩, rfl⟩
    rw [if_pos rfl]
    exact hquotes.1
  have hlevels : c.levels ≤ maxDepth := by decide
  exact ⟨hwritten, compounds_readBack.1 true ts c hwritten, hc, hlevels, compounds_readBack.2 c hc hlevels⟩

/-- A sign behind an open quote is text, and two percent signs start the longer form of a variable. So `"a==b` is no
comparison, although its left word `"a` has no equals sign and is no keyword, and `%%` is no variable. -/
theorem open_quote_not_compared :
    (Token.scan "IF ^\"a==b ECHO x").map (·.lexeme) =
      ["IF", "\"a" ++ "==" ++ "b", "ECHO", "x"].map (.word · false) ∧
    '=' ∉ "\"a".toList ∧ "\"a".map Char.toUpper ∉ ifKeywords ∧
    Command.parse "IF ^\"a==b ECHO x" = .error ⟨.unexpected "ECHO", 10⟩ ∧
    (Token.scan "FOR %% IN (a) DO ECHO x").map (·.text) = ["FOR", "%" ++ "%", "IN", "(", "a", ")", "DO", "ECHO", "x"] ∧
    Command.parse "FOR %% IN (a) DO ECHO x" = .error ⟨.unexpected "%%", 4⟩ := by
  decide +kernel

end Parser

end BatchShell
