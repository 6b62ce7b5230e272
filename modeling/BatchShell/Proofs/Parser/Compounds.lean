import BatchShell.Proofs.Parser.Heads
import BatchShell.Proofs.Parser.Precedence

/-!
# Conditions and loops as they are written

`Written` says what can be written for a tree: conditions and loops with their heads, bodies in parentheses or
without, `ELSE` behind a body in parentheses, and around them the operators of the sequence grammar.

A body without parentheses takes all that follows it on its line. Nothing but the end of the line or a closing
parenthesis may follow a command that ends in such a body, and the index `greedy` of `Written` marks these.

* `Written.readsBack`: what is written is read as what it was written for, before all that may follow it.
-/
namespace BatchShell.Parser

/-! ## Simple commands -/

/-- What is written for a simple command, with the text of its arguments as they stand among the tokens. -/
structure SimpleWritten (ts : List Token) (c : SimpleCommand) : Prop where
  writable : c.Writable
  words : sayings ts = c.lexemes
  spaced : Spaced ts
  raw : c.rawArgs = rawText (ts.tail.take c.args.length)

namespace SimpleScan

variable (s : SimpleScan)

theorem closeWord_rawArgs : s.closeWord.rawArgs = s.rawArgs := by
  unfold closeWord
  split
  · rfl
  · split <;> rfl

theorem finish_rawArgs : s.finish.rawArgs = s.rawArgs := s.closeWord_rawArgs

variable {s}

/-- A word after white space is kept with the white space. -/
theorem addText_rawArgs (hcurrent : s.current.isSome = true) {leading : String} (hleading : leading ≠ "")
    (text : String) :
    (s.addText leading text).rawArgs = s.rawArgs ++ (leading ++ text) ∧
      (s.addText leading text).current.isSome = true := by
  obtain ⟨word, hword⟩ := Option.isSome_iff_exists.mp hcurrent
  rw [addText, hword]
  simp only [String.isEmpty_eq_false_iff.mpr hleading, Bool.false_eq_true, if_false, Option.isSome_some, and_true]
  exact String.append_assoc ..

end SimpleScan

/-- Words after white space are kept as they were written. -/
theorem simpleFrom_spacedWords {args : List String} {ts : List Token} (h : sayings ts = args.map (.word · false))
    (hspaced : ∀ t ∈ ts, t.leading ≠ "") {s : SimpleScan} (hcurrent : s.current.isSome = true) (rest : List Token) :
    ∃ s' : SimpleScan, bare (simpleFrom s (ts ++ rest)) = bare (simpleFrom s' rest) ∧
      s'.rawArgs = s.rawArgs ++ rawText ts := by
  induction args generalizing ts s with
  | nil =>
    cases List.map_eq_nil_iff.mp h
    exact ⟨s, rfl, String.append_empty.symm⟩
  | cons arg args ih =>
    obtain ⟨t, us, rfl, hword, hus⟩ := List.map_eq_cons_iff.mp h
    obtain ⟨hleading, hspaced⟩ := List.forall_mem_cons.mp hspaced
    obtain ⟨⟨quoted, hlexeme⟩, -, htext⟩ := word_of_unquoted hword
    obtain ⟨hraw, hcurrent'⟩ := SimpleScan.addText_rawArgs hcurrent hleading arg
    obtain ⟨s', hread, hs'⟩ := ih hus hspaced hcurrent'
    refine ⟨s', ?_, ?_⟩
    · rw [← hread, List.cons_append, simpleFrom_cons, hlexeme]
    · rw [hs', hraw, ← htext]
      simp [rawText, String.append_assoc]

/-- Redirections are no part of the text of the arguments. -/
theorem rawArgs_of_redirections {rs : List Redirection} (hrs : ∀ r ∈ rs, r.Writable) {ts : List Token}
    (h : sayings ts = rs.flatMap (·.lexemes)) {s : SimpleScan} {c : SimpleCommand}
    (hread : bare (simpleFrom s ts) = .ok (c, [])) : c.rawArgs = s.rawArgs := by
  induction rs generalizing ts s with
  | nil =>
    cases List.map_eq_nil_iff.mp h
    cases (simpleFrom_nil s).symm.trans hread
    exact s.finish_rawArgs
  | cons r rs ih =>
    obtain ⟨hr, hrs⟩ := List.forall_mem_cons.mp hrs
    obtain ⟨t, sign, us, after, rfl, hsign, htarget, hafter⟩ := redirectTarget_written hr h
    rw [simpleFrom_cons, hsign] at hread
    dsimp only at hread
    rw [htarget] at hread
    exact (ih hrs hafter hread).trans s.closeWord_rawArgs

/-- A simple command that was written is read back, with the text of its arguments. -/
theorem SimpleWritten.read {ts : List Token} {c : SimpleCommand} (h : SimpleWritten ts c) :
    ∃ t us, ts = t :: us ∧ t.isOperator = false ∧ ¬ StartsForm ts ∧ rise ts = 0 ∧
      bare (simple t us) = .ok (c, []) := by
  obtain ⟨t, us, c', rfl, hstart, hform, hrise, hread, hsame⟩ := simple_written h.writable h.words h.spaced
  refine ⟨t, us, rfl, hstart, hform, hrise, ?_⟩
  suffices hraw : c'.rawArgs = c.rawArgs by
    obtain ⟨name, args, raw, rs⟩ := c
    obtain ⟨name', args', raw', rs'⟩ := c'
    cases hraw
    cases hsame
    exact hread
  obtain ⟨hname, hus⟩ := List.cons.inj h.words
  obtain ⟨args, rs, rfl, hargs, hrs⟩ := List.map_eq_append_iff.mp hus
  obtain ⟨⟨quoted, hlexeme⟩, hisWord, -⟩ := word_of_unquoted hname
  have hargWords : ∀ u ∈ args, u.isWord = true := by
    intro u hu
    have hmem : u.lexeme.unquoted ∈ args.map (·.lexeme.unquoted) := List.mem_map_of_mem hu
    rw [hargs] at hmem
    obtain ⟨text, -, htext⟩ := List.mem_map.mp hmem
    exact (word_of_unquoted htext.symm).2.1
  have hleading := leading_of_spaced h.spaced hisWord hargWords
  have hlength : args.length = c.args.length := by simpa using congrArg List.length hargs
  obtain ⟨s', hread', hraw⟩ := simpleFrom_spacedWords hargs hleading
    (by rfl : (SimpleScan.start.addText t.leading c.name).current.isSome = true) rs
  rw [simple_eq_simpleFrom hstart, simpleFrom_cons, hlexeme] at hread
  rw [h.raw, List.tail_cons, ← hlength, List.take_left,
    rawArgs_of_redirections h.writable.2.2 hrs (hread'.symm.trans hread), hraw]
  exact String.empty_append

/-! ## What is written -/

/-- What may follow a command; `greedy` if all else on the line would be part of it. -/
def Admits (greedy : Bool) (rest : List Token) : Prop :=
  ∀ t us, rest = t :: us → t.isOperator = true ∧ t.isOp .openParen = false ∧
    (greedy = true → t.isOp .closeParen = true ∨ t.isOp .lineBreak = true)

/-- What is written for redirections behind a closing parenthesis. -/
def RedirectsWritten (ts : List Token) (rs : List Redirection) : Prop :=
  (∀ r ∈ rs, r.Writable) ∧ sayings ts = rs.flatMap (·.lexemes)

/-- `Written depth greedy part ts c`: the tokens `ts` are what can be written for the part `c` of a line, which nests
at most `depth` levels deep. -/
inductive Written : Nat → Bool → Part → List Token → Command → Prop where
  | simple {depth ts c} (hts : SimpleWritten ts c) : Written (depth + 1) false .command ts (.simple c)
  | block {depth ts c} (hbody : Written depth false .body ts c) : Written (depth + 1) false .command ts c
  | ifThen {depth greedy head asked body c} (hhead : IfWritten head asked)
      (hbody : Written depth greedy .body body c) :
      Written (depth + 1) greedy .command (head ++ body) (.ifThen asked c)
  | ifElse {depth greedy head asked body c word w other c'} (hhead : IfWritten head asked)
      (hbody : Written depth false .body body c) (hword : Words word [w]) (hw : w.map Char.toUpper = "ELSE")
      (hother : Written depth greedy .body other c') :
      Written (depth + 1) greedy .command (head ++ (body ++ (word ++ other))) (.ifElse asked c c')
  | loop {depth greedy head kept body c} (hhead : ForWritten head kept) (hbody : Written depth greedy .body body c) :
      Written (depth + 1) greedy .command (head ++ body) (.loop kept c)
  /-- A body in parentheses. -/
  | enclosed {depth greedy opened inner c closed after rs} (hopen : opened.isOp .openParen = true)
      (hinner : Written depth greedy (.lines false) inner c) (hclose : closed.isOp .closeParen = true)
      (hafter : RedirectsWritten after rs) :
      Written depth false .body (opened :: (inner ++ closed :: after)) (.block c rs)
  /-- A body that goes on to the end of its line. -/
  | inline {depth greedy run c} (hopen : ∀ t us, run = t :: us → t.isOp .openParen = false) (hspace : Unglued run)
      (hrun : Written depth greedy (.lines true) run c) : Written depth true .body run c
  | stage {depth greedy run c} (hrun : Written depth greedy .command run c) : Written depth greedy .pipeline run c
  | pipe {depth greedy left l bar right r} (hleft : Written depth false .pipeline left l)
      (hbar : bar.isOp .pipe = true) (hright : Written depth greedy .command right r) :
      Written depth greedy .pipeline (left ++ bar :: right) (.pipe l r)
  | link {depth greedy run c} (hrun : Written depth greedy .pipeline run c) : Written depth greedy .chain run c
  | join {depth greedy left l sign right r} (hleft : Written depth false .chain left l)
      (hsign : (sign.isOp .andThen || sign.isOp .orElse) = true) (hright : Written depth greedy .pipeline right r) :
      Written depth greedy .chain (left ++ sign :: right) (joinLink sign l r)
  | item {depth greedy oneLine run c} (hrun : Written depth greedy .chain run c) :
      Written depth greedy (.sequence oneLine) run c
  | both {depth greedy greedy' oneLine left l sign breaks right r}
      (hleft : Written depth greedy (.sequence oneLine) left l) (hsign : separates oneLine sign = true)
      (hgreedy : greedy = true → sign.isOp .lineBreak = true) (hbreaks : Breaks oneLine breaks)
      (hright : Written depth greedy' .chain right r) :
      Written depth greedy' (.sequence oneLine) (left ++ (sign :: (breaks ++ right))) (.both l r)
  | lines {depth greedy oneLine before run after c} (hbefore : Breaks oneLine before)
      (hrun : Written depth greedy (.sequence oneLine) run c) (hafter : Breaks oneLine after) :
      Written depth greedy (.lines oneLine) (before ++ (run ++ after)) c

/-! ## Bodies -/

/-- What follows a body goes on neither with its last word nor with a redirection. -/
def EndsBody (rest : List Token) : Prop :=
  Unglued rest ∧ ∀ t us sign, rest = t :: us → t.lexeme ≠ .redirect sign

section

variable {greedy : Bool} {rest : List Token}

theorem Admits.nil (greedy : Bool) : Admits greedy [] := by
  intro t us h
  cases h

theorem Admits.follows (h : Admits greedy rest) : Follows 0 rest :=
  fun t us heq => ⟨(h t us heq).1, (h t us heq).2.1, fun _ => rfl⟩

theorem Admits.endsBody (h : Admits greedy rest) : EndsBody rest := by
  refine ⟨h.follows.unglued, fun t us sign heq hsign => ?_⟩
  have hop := (h t us heq).1
  rw [Token.isOperator, hsign] at hop
  cases hop

theorem Admits.word? (h : Admits greedy rest) : word? rest = none := by
  cases rest with
  | nil => rfl
  | cons t us =>
    refine word?_of_not_word (Bool.eq_false_iff.mpr fun hword => ?_) us
    cases (isOperator_of_isWord hword).symm.trans (h t us rfl).1

/-- The redirections of a block are read back before all that may follow its last word. -/
theorem RedirectsWritten.read {ts : List Token} {rs : List Redirection} (h : RedirectsWritten ts rs)
    (hrest : EndsBody rest) : bare (redirectionsFrom (ts ++ rest)) = .ok (rs, rest) := by
  obtain ⟨hrs, hts⟩ := h
  induction rs generalizing ts with
  | nil =>
    cases List.map_eq_nil_iff.mp hts
    cases rest with
    | nil => exact redirectionsFrom_nil
    | cons t us => exact redirectionsFrom_stop (fun sign => hrest.2 t us sign rfl) us
  | cons r rs ih =>
    obtain ⟨hr, hrs⟩ := List.forall_mem_cons.mp hrs
    obtain ⟨t, sign, us, after, rfl, hsign, htarget, hafter⟩ := redirectTarget_written hr hts
    obtain ⟨run, rfl, -, hrun⟩ := redirectTarget_run htarget
    have hglue : Unglued (after ++ rest) := (unglued_of_redirections hafter).append hrest.1
    rw [List.cons_append, List.append_assoc, redirectionsFrom_redirect hsign, hrun _ fun _ => hglue, Except.bind_ok]
    dsimp only
    rw [ih hrs hafter]
    rfl

end

section

variable {lineEnd depth : Nat} {command : CommandReader} {inBlock isBlock : Bool} {ts us rest : List Token}
  {asked : Condition} {body : Command}

/-- A body in parentheses is read as a block. -/
theorem branch_enclosed {opened closed : Token} {inner after : List Token} {c : Command} {rs : List Redirection}
    (hts : ts = opened :: (inner ++ closed :: (after ++ rest))) (hopen : opened.isOp .openParen = true)
    (hclose : closed.isOp .closeParen = true)
    (hinner : ∀ us, bare (sequenceFrom command true false none (inner ++ closed :: us)) = .ok (some c, closed :: us))
    (hafter : RedirectsWritten after rs) (hrest : EndsBody rest) :
    ∃ hle, branch lineEnd command inBlock ts = .ok (.block c rs, true, ⟨rest, hle⟩) := by
  subst hts
  have hblock : bare (block command opened.start (inner ++ closed :: (after ++ rest))) = .ok (.block c rs, rest) := by
    rw [block_eq, hinner]
    simp [hclose, hafter.read hrest]
  obtain ⟨hle, hblock⟩ := bare_eq_ok.mp hblock
  refine ⟨Nat.le_succ_of_le hle, ?_⟩
  rw [branch, if_pos hopen, hblock]
  rfl

/-- Any other body is read as a sequence on one line. -/
theorem branch_inline (hopen : ∀ t us, ts = t :: us → t.isOp .openParen = false) (hts : ts ≠ []) {c : Command}
    (h : bare (sequenceFrom command inBlock true none ts) = .ok (some c, rest)) :
    ∃ hle, branch lineEnd command inBlock ts = .ok (c, false, ⟨rest, hle⟩) := by
  obtain ⟨hle, h⟩ := bare_eq_ok.mp h
  refine ⟨hle, ?_⟩
  cases ts with
  | nil => exact absurd rfl hts
  | cons t us =>
    rw [branch, hopen t us rfl, if_neg Bool.false_ne_true, sequence, h]
    rfl

/-- A condition without `ELSE`. -/
theorem conditional_then (hhead : ifHead lineEnd ts = .ok (asked, us)) {after : NotLonger us}
    (hbody : branch lineEnd command inBlock us = .ok (body, isBlock, after)) (hend : word? after.val = none) :
    bare (conditional lineEnd command inBlock ts) = .ok (.ifThen asked body, after.val) := by
  obtain ⟨⟨w, rest1⟩, hword, hhead⟩ := Except.bind_eq_ok_iff.mp hhead
  obtain ⟨hlt, hcondition⟩ := bare_eq_ok.mp hhead
  rw [conditional, hword, Except.bind_ok]
  dsimp only at hcondition ⊢
  rw [hcondition, Except.bind_ok]
  dsimp only
  rw [hbody, Except.bind_ok]
  dsimp only
  rw [hend]
  rfl

/-- `ELSE` belongs to the condition whose block it follows. -/
theorem conditional_else (hhead : ifHead lineEnd ts = .ok (asked, us)) {after : NotLonger us}
    (hbody : branch lineEnd command inBlock us = .ok (body, true, after)) {w : Word} {more : Shorter after.val}
    (hword : word? after.val = some (w, more)) (hw : w.text.map Char.toUpper = "ELSE") {other : Command}
    {last : NotLonger more.val} (hother : branch lineEnd command inBlock more.val = .ok (other, isBlock, last)) :
    bare (conditional lineEnd command inBlock ts) = .ok (.ifElse asked body other, last.val) := by
  obtain ⟨⟨w', rest1⟩, hword', hhead⟩ := Except.bind_eq_ok_iff.mp hhead
  obtain ⟨hlt, hcondition⟩ := bare_eq_ok.mp hhead
  rw [conditional, hword', Except.bind_ok]
  dsimp only at hcondition ⊢
  rw [hcondition, Except.bind_ok]
  dsimp only
  rw [hbody, Except.bind_ok]
  dsimp only
  rw [hword]
  dsimp only
  rw [hw, if_pos (by decide), hother]
  rfl

theorem loop_body {kept : LoopHead} (hhead : bare (loopHead lineEnd ts) = .ok (kept, us)) {after : NotLonger us}
    (hbody : branch lineEnd command inBlock us = .ok (body, isBlock, after)) :
    bare (loop lineEnd command inBlock ts) = .ok (.loop kept body, after.val) := by
  obtain ⟨hlt, hhead⟩ := bare_eq_ok.mp hhead
  rw [loop, hhead, Except.bind_ok]
  dsimp only
  rw [hbody]
  rfl

/-- The reader of a command goes by its first word. -/
theorem commandReader_form {keyword : String} (hword : keywordAt ts = some keyword) :
    ∃ t us, ts = t :: us ∧ t.isOp .openParen = false := by
  cases ts with
  | nil => cases hword
  | cons t us =>
    refine ⟨t, us, rfl, Bool.eq_false_iff.mpr fun hopen => ?_⟩
    cases (isOperator_of_isWord (isWord_of_keywordAt hword)).symm.trans (isOperator_of_isOp hopen)

theorem commandReader_if (hword : keywordAt ts = some "IF") :
    bare (commandReader lineEnd (depth + 1) inBlock ts) =
      bare (conditional lineEnd (commandReader lineEnd depth) inBlock ts) := by
  obtain ⟨t, us, rfl, hopen⟩ := commandReader_form hword
  exact commandWith_if hopen hword

theorem commandReader_for (hword : keywordAt ts = some "FOR") :
    bare (commandReader lineEnd (depth + 1) inBlock ts) =
      bare (loop lineEnd (commandReader lineEnd depth) inBlock ts) := by
  obtain ⟨t, us, rfl, hopen⟩ := commandReader_form hword
  exact commandWith_for hopen hword

end

/-! ## Reading back -/

/-- Every part but lines starts with a command. -/
theorem Written.head {depth : Nat} {greedy : Bool} {part : Part} {run : List Token} {c : Command}
    (h : Written depth greedy part run c) (hpart : part ≠ .lines false) :
    ∃ t us, run = t :: us ∧ StartsCommand t := by
  induction h with
  | simple hts =>
    obtain ⟨t, us, rfl, hstart, -⟩ := hts.read
    exact ⟨t, us, rfl, .inl hstart⟩
  | block _ ih | stage _ ih | link _ ih | item _ ih => exact ih (by simp)
  | ifThen hhead _ _ | ifElse hhead _ _ _ _ _ _ =>
    obtain ⟨⟨t, us, rfl, ht, -⟩⟩ := hhead
    exact ⟨t, _, rfl, .inl (isOperator_of_isWord ht)⟩
  | loop hhead _ _ =>
    obtain ⟨⟨t, us, rfl, ht, -⟩⟩ := hhead
    exact ⟨t, _, rfl, .inl (isOperator_of_isWord ht)⟩
  | enclosed hopen => exact ⟨_, _, rfl, .inr hopen⟩
  | inline _ _ _ ih => exact ih (by simp)
  | pipe _ _ _ ih | join _ _ _ ih | both _ _ _ _ _ ih =>
    obtain ⟨t, us, rfl, ht⟩ := ih (by simp)
    exact ⟨t, _, rfl, ht⟩
  | @lines _ _ oneLine before run after _ hbefore _ _ ih =>
    cases oneLine with
    | false => exact absurd rfl hpart
    | true =>
      obtain ⟨t, us, rfl, ht⟩ := ih (by simp)
      rw [hbefore.2 rfl]
      exact ⟨t, _, rfl, ht⟩

/-- A body is not glued to the head before it. -/
theorem Written.unglued {depth : Nat} {greedy : Bool} {run rest : List Token} {c : Command}
    (h : Written depth greedy .body run c) (hrest : Unglued rest) : Unglued (run ++ rest) := by
  cases h with
  | enclosed hopen =>
    intro t us heq
    cases heq
    exact isGlued_of_isOperator (isOperator_of_isOp hopen)
  | inline _ hspace _ => exact hspace.append hrest

/-- A body ends before a word after white space. -/
theorem Words.endsBody {ts rest : List Token} {w : String} (h : Words ts [w]) (hrest : Unglued rest) :
    EndsBody (ts ++ rest) := by
  refine ⟨h.unglued hrest, fun t us sign heq hsign => ?_⟩
  obtain ⟨u, vs, rfl, hu, -⟩ := h.single
  cases heq
  rw [Token.isWord, hsign] at hu
  cases hu

/-- What may follow lines. -/
def EndsLines (oneLine : Bool) (rest : List Token) : Prop :=
  ∀ t us, rest = t :: us → endsSequence oneLine t = true

theorem EndsLines.nil (oneLine : Bool) : EndsLines oneLine [] := by
  intro t us h
  cases h

section

variable (lineEnd depth : Nat) (greedy : Bool) (run : List Token) (c : Command)

/-- The reader of a part takes `run` for `c` and goes on with what follows. -/
def ReadsBack : Part → Prop
  | .command => ∀ inBlock rest, Admits greedy rest →
      bare (commandReader lineEnd depth inBlock (run ++ rest)) = .ok (c, rest)
  | .pipeline => ∀ inBlock rest, Admits greedy rest →
      bare (pipeline (commandReader lineEnd depth) inBlock (run ++ rest)) =
        bare (pipelineFrom (commandReader lineEnd depth) inBlock c rest)
  | .chain => ∀ inBlock rest, Admits greedy rest → Stops .pipeline 0 rest →
      bare (chain (commandReader lineEnd depth) inBlock (run ++ rest)) =
        bare (chainFrom (commandReader lineEnd depth) inBlock c rest)
  | .sequence oneLine => ∀ inBlock breaks rest, Breaks oneLine breaks → Admits greedy rest → Stops .chain 0 rest →
      bare (sequenceFrom (commandReader lineEnd depth) inBlock oneLine none (breaks ++ (run ++ rest))) =
        afterItem (commandReader lineEnd depth) inBlock oneLine c rest
  | .lines oneLine => ∀ inBlock rest, EndsLines oneLine rest →
      bare (sequenceFrom (commandReader lineEnd depth) inBlock oneLine none (run ++ rest)) = .ok (some c, rest)
  | .body => ∀ inBlock rest, (greedy = true → Admits true rest) → EndsBody rest →
      ∃ hle, branch lineEnd (commandReader lineEnd depth) inBlock (run ++ rest) = .ok (c, !greedy, ⟨rest, hle⟩)

end

section

variable {lineEnd depth : Nat} {greedy inBlock oneLine : Bool} {run rest breaks : List Token} {c : Command} {t : Token}

theorem admits_of_isOp {op : Operator} (h : t.isOp op = true) (hopen : op ≠ .openParen)
    (hgreedy : greedy = true → op = .closeParen ∨ op = .lineBreak) (us : List Token) : Admits greedy (t :: us) := by
  intro t' us' heq
  cases heq
  refine ⟨isOperator_of_isOp h, isOp_eq_false h hopen, fun hgreedy' => ?_⟩
  obtain rfl | rfl := hgreedy hgreedy'
  · exact .inl h
  · exact .inr h

/-- A sequence may be followed by what ends it or separates its commands. -/
theorem stops_chain {op : Operator} (h : t.isOp op = true) (hop : op ∈ [.both, .lineBreak, .closeParen])
    (us : List Token) : Stops .chain 0 (t :: us) := by
  refine .cons ?_ fun _ => rfl
  simp only [List.mem_cons, List.not_mem_nil, or_false] at hop
  obtain rfl | rfl | rfl := hop <;> simp [Part.goesOn, isOp_eq_false h]

theorem endsSequence_cases (h : endsSequence oneLine t = true) :
    t.isOp .closeParen = true ∨ oneLine = true ∧ t.isOp .lineBreak = true := by
  simpa [endsSequence] using h

/-- The end of lines may follow any command. -/
theorem EndsLines.admits (h : EndsLines oneLine rest) (greedy : Bool) : Admits greedy rest ∧ Stops .chain 0 rest := by
  cases rest with
  | nil => exact ⟨.nil greedy, .nil _ _⟩
  | cons t us =>
    obtain hclose | ⟨-, hbreak⟩ := endsSequence_cases (h t us rfl)
    · exact ⟨admits_of_isOp hclose (by decide) (fun _ => .inl rfl) us, stops_chain hclose (by decide) us⟩
    · exact ⟨admits_of_isOp hbreak (by decide) (fun _ => .inr rfl) us, stops_chain hbreak (by decide) us⟩

theorem EndsLines.admits_breaks (h : EndsLines oneLine rest) (hbreaks : Breaks oneLine breaks) (greedy : Bool) :
    Admits greedy (breaks ++ rest) ∧ Stops .chain 0 (breaks ++ rest) := by
  cases breaks with
  | nil => exact h.admits greedy
  | cons t us =>
    have hbreak := hbreaks.1 t (by simp)
    exact ⟨admits_of_isOp hbreak (by decide) (fun _ => .inr rfl) _, stops_chain hbreak (by decide) _⟩

/-- Line breaks at the end of lines are passed over. -/
theorem afterItem_breaks (command : CommandReader) (hbreaks : Breaks oneLine breaks) (hrest : EndsLines oneLine rest) :
    afterItem command inBlock oneLine c (breaks ++ rest) = .ok (some c, rest) := by
  cases oneLine with
  | true =>
    rw [hbreaks.2 rfl, List.nil_append]
    cases rest with
    | nil => rfl
    | cons t us =>
      have hsep : separates true t = false := by
        obtain h | ⟨-, h⟩ := endsSequence_cases (hrest t us rfl) <;> simp [separates, isOp_eq_false h]
      rw [afterItem, hsep]
      rfl
  | false =>
    have hending : Ending false 0 0 breaks := by
      cases breaks with
      | nil => exact .inl ⟨rfl, rfl⟩
      | cons t us =>
        obtain ⟨ht, hus⟩ := List.forall_mem_cons.mp hbreaks.1
        exact .inr ⟨⟨t, us, rfl, by simp [separates, ht], hus, (by simp)⟩, rfl⟩
    exact afterItem_end command hending fun t us heq => by simpa [endsSequence] using hrest t us heq

/-- One more command of a sequence is read. -/
theorem ReadsBack.item (h : ReadsBack lineEnd depth greedy run c .chain)
    (hhead : ∃ t us, run = t :: us ∧ StartsCommand t) (prev : Option Command) (hbreaks : Breaks oneLine breaks)
    (hrest : Admits greedy rest) (hstop : Stops .chain 0 rest) :
    bare (sequenceFrom (commandReader lineEnd depth) inBlock oneLine prev (breaks ++ (run ++ rest))) =
      afterItem (commandReader lineEnd depth) inBlock oneLine (joinBoth prev c) rest := by
  obtain ⟨t, us, rfl, ht⟩ := hhead
  obtain ⟨hbreak, hend, hop⟩ := ht.plain oneLine
  have hgo : ∀ t us, rest = t :: us → t.isOp .pipe = false ∧ (t.isOp .andThen || t.isOp .orElse) = false := by
    intro t us heq
    have hgo := (hstop t us heq).1
    simp only [Part.goesOn, Bool.or_eq_false_iff] at hgo
    exact ⟨hgo.1.1, by simp [hgo]⟩
  have hchain : bare (chain (commandReader lineEnd depth) inBlock (t :: (us ++ rest))) = .ok (c, rest) :=
    (h inBlock rest hrest fun t us heq => ⟨(hgo t us heq).1, fun _ => rfl⟩).trans
      (chainFrom_stop fun t us heq => (hgo t us heq).2)
  rw [sequenceFrom_eq, itemStart_append hbreaks (by intro t' vs heq; cases heq; exact hbreak)]
  simp only [List.cons_append, hend, hop, hchain]
  rfl

end

/-- **What is written is read back**, before all that may follow it. -/
theorem Written.readsBack {depth : Nat} {greedy : Bool} {part : Part} {run : List Token} {c : Command}
    (h : Written depth greedy part run c) (lineEnd : Nat) : ReadsBack lineEnd depth greedy run c part := by
  induction h with
  | @simple depth ts c hts =>
    intro inBlock rest hrest
    obtain ⟨t, us, rfl, hstart, hform, hrise, hread⟩ := hts.read
    have hspells : Spells false (depth + 1) inBlock .command (rise (t :: us)) (t :: us) (.simple c) :=
      .simple hstart hform hread
    rw [hrise] at hspells
    exact hspells.readBack lineEnd rest hrest.follows
  | @block depth ts c _ ih =>
    intro inBlock rest hrest
    obtain ⟨hle, hbranch⟩ := ih inBlock rest (by simp) hrest.endsBody
    obtain ⟨-, t, us, hts, hopen, hblock⟩ | ⟨hno, -⟩ := branch_ok hbranch
    · rw [hts, commandReader, commandWith_block hopen]
      exact hblock
    · cases hno
  | @ifThen depth greedy head asked body c hhead hbody ih =>
    intro inBlock rest hrest
    obtain ⟨hword, hread⟩ := ifHead_written hhead (hbody.unglued hrest.endsBody.1)
    obtain ⟨hle, hbranch⟩ := ih inBlock rest (fun hgreedy => hgreedy ▸ hrest) hrest.endsBody
    rw [List.append_assoc, commandReader_if hword]
    exact conditional_then hread hbranch hrest.word?
  | @ifElse depth greedy head asked body c word w other c' hhead hbody hword hw hother ihbody ihother =>
    intro inBlock rest hrest
    have hotherStart : Unglued (other ++ rest) := hother.unglued hrest.endsBody.1
    have helse : EndsBody (word ++ (other ++ rest)) := hword.endsBody hotherStart
    obtain ⟨hif, hread⟩ := ifHead_written hhead (hbody.unglued helse.1)
    obtain ⟨hle, hbranch⟩ := ihbody inBlock _ (by simp) helse
    obtain ⟨start, hlt, hnext⟩ := hword.single.word? hotherStart
    obtain ⟨hle', hbranch'⟩ := ihother inBlock rest (fun hgreedy => hgreedy ▸ hrest) hrest.endsBody
    rw [List.append_assoc, List.append_assoc, List.append_assoc, commandReader_if hif]
    exact conditional_else hread hbranch hnext hw hbranch'
  | @loop depth greedy head kept body c hhead hbody ih =>
    intro inBlock rest hrest
    obtain ⟨hword, hread⟩ := loopHead_written hhead (hbody.unglued hrest.endsBody.1)
    obtain ⟨hle, hbranch⟩ := ih inBlock rest (fun hgreedy => hgreedy ▸ hrest) hrest.endsBody
    rw [List.append_assoc, commandReader_for hword]
    exact loop_body hread hbranch
  | @enclosed depth greedy opened inner c closed after rs hopen _ hclose hafter ih =>
    intro inBlock rest _ hrest
    refine branch_enclosed (by simp) hopen hclose (fun us => ih true _ ?_) hafter hrest
    intro t us' heq
    cases heq
    simp [endsSequence, hclose]
  | @inline depth greedy run c hopen hspace hrun ih =>
    intro inBlock rest hrest _
    obtain ⟨t, us, rfl, -⟩ := hrun.head (by simp)
    refine branch_inline ?_ (by simp) (ih inBlock rest ?_)
    · intro t' us' heq
      cases heq
      exact hopen t us rfl
    · intro t us heq
      obtain h | h := (hrest rfl t us heq).2.2 rfl <;> simp [endsSequence, h]
  | @stage depth greedy run c _ ih =>
    intro inBlock rest hrest
    rw [pipeline_eq, ih inBlock rest hrest]
    rfl
  | @pipe depth greedy left l bar right r _ hbar hright ihl ihr =>
    intro inBlock rest hrest
    obtain ⟨t, us, rfl, ht⟩ := hright.head (by simp)
    have hnext : Admits false (bar :: ((t :: us) ++ rest)) := admits_of_isOp hbar (by decide) (by simp) _
    rw [List.append_assoc, List.cons_append, ihl inBlock _ hnext, pipelineFrom_cons, if_pos hbar,
      List.cons_append, expectOperand_ok ht, ← List.cons_append, Except.bind_ok, ihr inBlock rest hrest]
    rfl
  | @link depth greedy run c _ ih =>
    intro inBlock rest hrest hstop
    rw [chain_eq, ih inBlock rest hrest, pipelineFrom_stop fun t us heq => (hstop t us heq).1]
    rfl
  | @join depth greedy left l sign right r _ hsign hright ihl ihr =>
    intro inBlock rest hrest hstop
    obtain ⟨t, us, rfl, ht⟩ := hright.head (by simp)
    have hnext : Admits false (sign :: (t :: us ++ rest)) ∧ Stops .pipeline 0 (sign :: (t :: us ++ rest)) := by
      obtain h | h := Bool.or_eq_true_iff.mp hsign <;>
        exact ⟨admits_of_isOp h (by decide) (by simp) _, .cons (isOp_eq_false h (by decide)) fun _ => rfl⟩
    rw [List.append_assoc, List.cons_append, ihl inBlock _ hnext.1 hnext.2, chainFrom_cons, if_pos hsign,
      List.cons_append, expectOperand_ok ht, ← List.cons_append, Except.bind_ok, ihr inBlock rest hrest,
      pipelineFrom_stop fun t us heq => (hstop t us heq).1]
    rfl
  | @item depth greedy oneLine run c hrun ih =>
    intro inBlock breaks rest hbreaks hrest hstop
    exact ReadsBack.item ih (hrun.head (by simp)) none hbreaks hrest hstop
  | @both depth greedy greedy' oneLine left l sign breaks right r _ hsign hgreedy hbreaks hright ihl ihr =>
    intro inBlock before rest hbefore hrest hstop
    have hnext : Admits greedy (sign :: (breaks ++ (right ++ rest))) := by
      obtain h | h := separates_cases hsign
      · refine admits_of_isOp h (by decide) (fun hg => ?_) _
        cases (isOp_eq_false h (by decide)).symm.trans (hgreedy hg)
      · exact admits_of_isOp h (by decide) (fun _ => .inr rfl) _
    have hl := ihl inBlock before _ hbefore hnext (follows_of_separates hsign 0 _).2
    rw [afterItem, if_pos hsign, ReadsBack.item ihr (hright.head (by simp)) (some l) hbreaks hrest hstop] at hl
    rw [List.append_assoc, List.cons_append, List.append_assoc]
    exact hl
  | @lines depth greedy oneLine before run after c hbefore _ hafter ih =>
    intro inBlock rest hrest
    obtain ⟨hadmits, hstop⟩ := hrest.admits_breaks hafter greedy
    rw [List.append_assoc, List.append_assoc, ih inBlock before _ hbefore hadmits hstop]
    exact afterItem_breaks _ hafter hrest

end BatchShell.Parser
