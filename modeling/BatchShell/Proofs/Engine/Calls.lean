import BatchShell.Proofs.Engine.Budget
import BatchShell.Proofs.Engine.Transparency
import BatchShell.Proofs.Token.Words

/-!
# What `CALL` makes of its text

A line that starts with `CALL` and goes on with words is one command (`Engine.runLine_call`). The text of its words,
with the values put in and the carets gone, is expanded a second time, and what comes out is divided into tokens
again. So it is a command line, not data. Two things can be said of it:

* If it has words only, `CALL` runs at most one simple command, which redirects nothing (`runCall_once`, from
  `Spells.isSingle`: words spell no other command).
* If the line has neither percent signs nor carets, it has words only, since its quotes are still there.

A value or an escaped sign can bring an operator or a redirection in (`Engine.call_splits_text`).
-/
namespace BatchShell

/-! ## Texts without percent signs -/

theorem Expansion.fillLoopVars_of_not_mem (files : FileTree) (cwd : String) (loops : List LoopFrame) {text : String}
    (h : '%' ∉ text.toList) : fillLoopVars files cwd loops text = text := by
  have hfill : ∀ cs : List Char, '%' ∉ cs → fillFrom files cwd loops cs = cs := by
    intro cs
    induction cs with
    | nil =>
      intro _
      rw [fillFrom]
    | cons c cs ih =>
      intro hcs
      have hc : ¬ (c == '%') = true := by
        rw [beq_iff_eq]
        rintro rfl
        exact hcs List.mem_cons_self
      rw [fillFrom, if_neg hc, ih fun hmem => hcs (List.mem_cons_of_mem c hmem)]
  rw [fillLoopVars, hfill _ h, String.ofList_toList, ite_self]

theorem Expansion.expandToken_of_not_mem (files : FileTree) (now : Nat → Ambient) (s : State) {t : Token}
    (ht : t.isWord = true) (h : '%' ∉ t.text.toList) : expandToken files now s t = .ok t := by
  obtain ⟨text, quoted, hlexeme⟩ := Token.exists_word ht
  have htext : '%' ∉ text.toList := by rwa [Token.text, hlexeme, Lexeme.text] at h
  rw [expandToken, hlexeme]
  dsimp only
  rw [expandPercent_of_not_mem files _ s htext, Except.map_ok, ← hlexeme]

/-- A word without percent signs stays, in front of whatever the rest becomes. -/
theorem Expansion.expandTokens_cons_of_not_mem (files : FileTree) (now : Nat → Ambient) (s : State) {t : Token}
    (ht : t.isWord = true) (h : '%' ∉ t.text.toList) (ts : List Token) :
    expandTokens files now s (t :: ts) = (expandTokens files now s ts).map (t :: ·) := by
  rw [expandTokens_cons, expandToken_of_not_mem files now s ht h]
  cases expandTokens files now s ts <;> rfl

theorem Expansion.expandTokens_of_not_mem (files : FileTree) (now : Nat → Ambient) (s : State) {ts : List Token}
    (h : '%' ∉ (rawText ts).toList) (hwords : ∀ t ∈ ts, t.isWord = true) : expandTokens files now s ts = .ok ts := by
  induction ts with
  | nil => rfl
  | cons t ts ih =>
    obtain ⟨ht, hts⟩ := List.forall_mem_cons.mp hwords
    simp only [toList_rawText_cons, List.mem_append, not_or] at h
    rw [expandTokens_cons_of_not_mem files now s ht h.2.1, ih h.2.2 hts, Except.map_ok]

theorem Expansion.expandTokens_kept {files : FileTree} {now : Nat → Ambient} {s : State} {ts us : List Token}
    (hexpand : expandTokens files now s ts = .ok us) (hwords : ∀ t ∈ ts, t.isWord = true)
    (hleading : ∀ t ∈ ts, t.leading ≠ "") : ∀ u ∈ us, u.isWord = true ∧ u.leading ≠ "" := by
  induction ts generalizing us with
  | nil =>
    cases hexpand
    simp
  | cons t ts ih =>
    obtain ⟨ht, hts⟩ := List.forall_mem_cons.mp hwords
    obtain ⟨hlead, hleads⟩ := List.forall_mem_cons.mp hleading
    obtain ⟨v, vs, hv, hvs, rfl⟩ := expandTokens_cons_eq_ok_iff.mp hexpand
    refine List.forall_mem_cons.mpr ⟨?_, ih hvs hts hleads⟩
    obtain ⟨text, quoted, hlexeme⟩ := Token.exists_word ht
    rw [expandToken, hlexeme] at hv
    obtain ⟨expanded, -, rfl⟩ := Except.map_eq_ok_iff.mp hv
    exact ⟨rfl, hlead⟩

/-! ## Reading words -/

/-- One simple command that redirects nothing, perhaps under conditions. -/
def Command.isSingle : Command → Bool
  | .simple c => c.redirections.isEmpty
  | .ifThen _ body => body.isSingle
  | _ => false

namespace Parser

/-- Take a word with the white space before it. -/
def SimpleScan.addWord (s : SimpleScan) (t : Token) : SimpleScan := s.addText t.leading t.text

/-- Words go into a simple command one after another. -/
theorem simpleFrom_words {ts : List Token} (hwords : ∀ t ∈ ts, t.isWord = true) (s : SimpleScan) :
    bare (simpleFrom s ts) = .ok ((ts.foldl SimpleScan.addWord s).finish, []) := by
  induction ts generalizing s with
  | nil => exact simpleFrom_nil s
  | cons t ts ih =>
    obtain ⟨ht, hts⟩ := List.forall_mem_cons.mp hwords
    obtain ⟨text, quoted, hlexeme⟩ := Token.exists_word ht
    have htext : t.text = text := by rw [Token.text, hlexeme, Lexeme.text]
    rw [simpleFrom_cons, hlexeme]
    dsimp only
    rw [ih hts, List.foldl_cons, SimpleScan.addWord, htext]

theorem SimpleScan.finish_redirections (s : SimpleScan) : s.finish.redirections = s.redirections.reverse := by
  unfold SimpleScan.finish SimpleScan.closeWord
  split
  · rfl
  · split <;> rfl

theorem SimpleScan.foldl_addWord_redirections (ts : List Token) (s : SimpleScan) :
    (ts.foldl SimpleScan.addWord s).redirections = s.redirections := by
  have hadd (s : SimpleScan) (t : Token) : (s.addWord t).redirections = s.redirections := by
    unfold SimpleScan.addWord SimpleScan.addText SimpleScan.closeWord
    split
    · split
      · rfl
      · split
        · rfl
        · split <;> rfl
    · rfl
  induction ts generalizing s with
  | nil => rfl
  | cons t ts ih => rw [List.foldl_cons, ih, hadd]

/-- Words apart from each other leave the name alone and are kept as they were written. -/
theorem SimpleScan.foldl_addWord_apart {ts : List Token} (hleading : ∀ t ∈ ts, t.leading ≠ "") {s : SimpleScan}
    {word : String} (hcurrent : s.current = some word) :
    ∃ args, (ts.foldl SimpleScan.addWord s).finish =
      ⟨String.ofList ((s.name.getD word).toList.dropWhile (· == '@')), args, s.rawArgs ++ rawText ts,
        s.redirections.reverse⟩ := by
  induction ts generalizing s word with
  | nil =>
    refine ⟨s.finish.args, ?_⟩
    rw [List.foldl_nil, show rawText [] = "" from rfl, String.append_empty]
    unfold SimpleScan.finish SimpleScan.closeWord
    rw [hcurrent]
    cases s.name <;> simp
  | cons t ts ih =>
    obtain ⟨ht, hts⟩ := List.forall_mem_cons.mp hleading
    have hadd : s.addWord t = { s.closeWord with
        current := some t.text, rawArgs := s.rawArgs ++ t.leading ++ t.text } := by
      unfold SimpleScan.addWord SimpleScan.addText
      rw [hcurrent]
      exact if_neg (by simpa [String.isEmpty_iff] using ht)
    have hname : s.closeWord.name = some (s.name.getD word) := by
      unfold SimpleScan.closeWord
      rw [hcurrent]
      cases s.name <;> simp
    have hredirections : s.closeWord.redirections = s.redirections := by
      unfold SimpleScan.closeWord
      rw [hcurrent]
      cases s.name <;> rfl
    have hcurrent' : (s.addWord t).current = some t.text := by rw [hadd]
    obtain ⟨args, hargs⟩ := ih hts hcurrent'
    refine ⟨args, ?_⟩
    rw [List.foldl_cons, hargs, hadd]
    simp [hname, hredirections, rawText, String.append_assoc]

/-- The head of a loop has a parenthesis in it. -/
theorem loopHead_paren {lineEnd : Nat} {ts : List Token} {head : LoopHead} {rest : Shorter ts}
    (h : loopHead lineEnd ts = .ok (head, rest)) :
    ∃ run, ts = run ++ rest.val ∧ ∃ t ∈ run, t.isOp .openParen = true := by
  unfold loopHead at h
  obtain ⟨⟨w, rest1⟩, hw, h⟩ := Except.bind_eq_ok_iff.mp h
  have hpass1 := (passes_word? (expectWord_ok hw)).trans (loopKind_passes .items rest1.val)
  dsimp only at h
  obtain ⟨⟨named, rest3⟩, hnamed, h⟩ := Except.bind_eq_ok_iff.mp h
  have hpass3 := hpass1.trans (passes_word? (expectWord_ok hnamed))
  dsimp only at h
  split at h
  · cases h
  · obtain ⟨rest4, hin, h⟩ := Except.bind_eq_ok_iff.mp h
    obtain ⟨before, hbefore, -⟩ := hpass3.trans (expectKeyword_ok hin)
    split at h
    · cases h
    · rename_i t us hrest4
      split at h
      · rename_i hopen
        split at h
        · cases h
        · rename_i raw rest5 hset
          obtain ⟨rest6, hdo, h⟩ := Except.bind_eq_ok_iff.mp h
          cases h
          obtain ⟨inside, hinside, -⟩ := setText_some hset
          obtain ⟨after, hafter, -⟩ := expectKeyword_ok hdo
          refine ⟨before ++ t :: (inside ++ after), ?_, t, by simp, hopen⟩
          calc ts = before ++ rest4.val := hbefore
            _ = before ++ t :: us := congrArg (before ++ ·) hrest4
            _ = before ++ t :: (inside ++ rest5.val) := congrArg (before ++ t :: ·) hinside
            _ = before ++ t :: (inside ++ (after ++ rest6.val)) := 
              congrArg (fun rest => before ++ t :: (inside ++ rest)) hafter
            _ = before ++ t :: (inside ++ after) ++ rest6.val := by simp
      · cases h

theorem ForHead.has_paren {ts : List Token} {head : LoopHead} (h : ForHead ts head) :
    ∃ t ∈ ts, t.isOp .openParen = true := by
  obtain ⟨lineEnd, after, -, hhead⟩ := h
  obtain ⟨hlt, hread⟩ := bare_eq_ok.mp hhead
  obtain ⟨run, hrun, hparen⟩ := loopHead_paren hread
  exact List.append_cancel_right hrun ▸ hparen

/-- Words spell one simple command without redirections. -/
theorem Spells.isSingle {forms : Bool} {depth : Nat} {inBlock : Bool} {part : Part} {n : Int} {ts : List Token}
    {c : Command} (h : Spells forms depth inBlock part n ts c) (hwords : ∀ t ∈ ts, t.isWord = true) :
    c.isSingle = true := by
  have hno {t : Token} {op : Operator} (hop : t.isOp op = true) (ht : t.isWord = true) : False := by
    rw [Token.isOp, beq_iff_eq] at hop
    rw [Token.isWord, hop] at ht
    cases ht
  induction h with
  | @simple depth inBlock t us c hstart hform hread =>
    rw [simple_eq_simpleFrom hstart, simpleFrom_words hwords] at hread
    cases hread
    rw [Command.isSingle, SimpleScan.finish_redirections, SimpleScan.foldl_addWord_redirections]
    rfl
  | block hopen => exact (hno hopen (hwords _ List.mem_cons_self)).elim
  | emptyBlock hopen => exact (hno hopen (hwords _ List.mem_cons_self)).elim
  | remark => rfl
  | ifThen _ _ _ ih => exact ih fun t ht => hwords t (List.mem_append_right _ ht)
  | ifElse _ _ _ _ _ ih =>
    -- an ELSE needs a block before it
    have hblock := ih fun t ht => hwords t (List.mem_append_right _ (List.mem_append_left _ ht))
    cases hblock
  | loop _ hhead =>
    obtain ⟨t, ht, hopen⟩ := hhead.has_paren
    exact (hno hopen (hwords t (List.mem_append_left _ ht))).elim
  | enclosed _ ih => exact ih hwords
  | inline _ _ ih => exact ih hwords
  | stage _ ih => exact ih hwords
  | pipe _ hbar => exact (hno hbar (hwords _ (by simp))).elim
  | link _ ih => exact ih hwords
  | @join _ _ _ _ _ sign _ _ _ _ hsign =>
    have hword := hwords sign (by simp)
    rcases Bool.or_eq_true_iff.mp hsign with hop | hop
    · exact (hno hop hword).elim
    · exact (hno hop hword).elim
  | item _ ih => exact ih hwords
  | both _ hbetween =>
    obtain ⟨t, breaks, rfl, hseparates, -⟩ := hbetween
    have hword := hwords t (by simp)
    rcases Bool.or_eq_true_iff.mp hseparates with hop | hop
    · exact (hno hop hword).elim
    · exact (hno (Bool.and_eq_true_iff.mp hop).1 hword).elim
  | lines _ _ _ ih => exact ih fun t ht => hwords t (List.mem_append_right _ (List.mem_append_left _ ht))

end Parser

/-! ## The second reading -/

/-- The text that `CALL` reads, given the text after its name. -/
def Machine.calledText (m : Machine) (raw : String) : Except Crash String :=
  Expansion.expandPercent m.host.files m.host.now m.state (Text.trimStart raw)

/-- A called label, or a task that is one simple command without redirections, perhaps under conditions. -/
def Task.isSingle : Task → Bool
  | .called c => c.redirections.isEmpty
  | .command c => c.isSingle
  | .script _ _ _ => true
  | .line _ => false

/-- `CALL` gives a result at once, or hands over to one task that is single. -/
def CallsOnce (raw stdin : String) (m : Machine) : Prop :=
  (∃ r, ∀ again, runCall again raw stdin m = some (.done r, m.passCall raw)) ∨
    ∃ task : Task, task.isSingle = true ∧ ∀ again, runCall again raw stdin m = again task stdin (m.passCall raw)

theorem callLabel_once (label : String) (args : List String) (stdin : String) (m : Machine) :
    (∃ r, ∀ again, callLabel again label args stdin m = some (.done r, m)) ∨
      ∃ task : Task, task.isSingle = true ∧ ∀ again, callLabel again label args stdin m = again task stdin m := by
  unfold callLabel
  split
  · exact .inl ⟨_, fun _ => rfl⟩
  · split
    · exact .inl ⟨_, fun _ => rfl⟩
    · exact .inr ⟨.script _ _ _, rfl, fun _ => rfl⟩

/-- A text that cannot be expanded breaks `CALL` off. -/
theorem runCall_of_error {raw : String} {m : Machine} {why : Crash} (h : m.calledText raw = .error why)
    (again : Again) (stdin : String) : runCall again raw stdin m = some (.crashed why, m) := by
  unfold Machine.calledText at h
  simp only [runCall, h]

/-- A text of words is called as one command. -/
theorem runCall_once {raw text : String} {m : Machine} (htext : m.calledText raw = .ok text)
    (h : ∀ t ∈ Token.scan text, t.isWord = true) (stdin : String) : CallsOnce raw stdin m := by
  unfold Machine.calledText at htext
  unfold CallsOnce runCall
  simp only [htext]
  cases hread : Command.ofTokens? (Token.scan text) with
  | error _ => exact .inl ⟨_, fun _ => rfl⟩
  | ok found =>
    cases found with
    | none => exact .inl ⟨_, fun _ => rfl⟩
    | some c =>
      obtain ⟨n, hspells⟩ := Parser.spells_of_ofTokens? (.inl rfl) hread
      have hsingle := hspells.isSingle h
      cases c with
      | simple c =>
        dsimp only
        split
        · exact callLabel_once c.name c.args stdin (m.passCall raw)
        · exact .inr ⟨.called c, hsingle, fun _ => rfl⟩
      | ifThen asked body => exact .inr ⟨.command (.ifThen asked body), hsingle, fun _ => rfl⟩
      | _ => cases hsingle

/-! ## Lines that start with `CALL` -/

section

variable {name : String} (hname : Text.upper name = "CALL")
include hname

theorem toList_of_upper_call : name.toList.map Char.toUpper = ['C', 'A', 'L', 'L'] := by
  have hchars := congrArg String.toList hname
  rwa [Text.upper, String.toList_map] at hchars

theorem not_mem_of_upper_call {c : Char} (hc : c.toUpper ∉ ['C', 'A', 'L', 'L']) : c ∉ name.toList := by
  intro hmem
  exact hc (toList_of_upper_call hname ▸ List.mem_map_of_mem hmem)

/-- The name is not one that ends `ECHO`, and means `CALL` wherever it stands. -/
theorem dispatch_call (e : Engine) (again : Again) (called : Bool) (args : List String) (raw stdin : String)
    (m : Machine) : e.dispatch again called name args raw stdin m = runCall again raw stdin m := by
  have hchars := toList_of_upper_call hname
  have hecho : Builtin.echoText? name = none := by
    unfold Builtin.echoText?
    split
    · rename_i hlong
      rw [hlong] at hchars
      simp at hchars
    · rfl
  have hquotes : dequote name = name := by
    have hfilter : name.toList.filter (· != '"') = name.toList := by
      refine List.filter_eq_self.mpr fun c hc => ?_
      rw [bne_iff_ne]
      rintro rfl
      exact not_mem_of_upper_call hname (by decide) hc
    rw [dequote, hfilter, String.ofList_toList]
  have hnonempty : ¬ name.isEmpty = true := by
    rw [String.isEmpty_iff]
    rintro rfl
    cases hchars
  have hbuiltin : Builtin.ofName? name = some .call := by
    rw [Builtin.ofName?, hname]
    rfl
  have hfind : Resolution.find m.host.files m.state.env m.state.cwd name = .builtin .call := by
    rw [Resolution.find, hquotes, if_neg hnonempty, hbuiltin]
  simp only [Engine.dispatch, hecho, hfind, Engine.runBuiltin]

/-- A line that is `CALL` and words is one command. -/
theorem ofTokens?_call {t : Token} {us : List Token} (ht : t.isWord = true) (htext : t.text = name)
    (hus : ∀ u ∈ us, u.isWord = true ∧ u.leading ≠ "") :
    ∃ args, Command.ofTokens? (t :: us) = .ok (some (.simple ⟨name, args, rawText us, []⟩)) := by
  obtain ⟨text, quoted, hlexeme⟩ := Token.exists_word ht
  obtain rfl : text = name := by rw [← htext, Token.text, hlexeme, Lexeme.text]
  have hat : text.toList.head? ≠ some '@' := fun h =>
    not_mem_of_upper_call hname (c := '@') (by decide) (List.mem_of_mem_head? h)
  have hdrop : text.toList.dropWhile (· == '@') = text.toList := by
    cases hchars : text.toList with
    | nil => rfl
    | cons d ds =>
      rw [hchars, List.head?_cons, ne_eq, Option.some.injEq] at hat
      rw [List.dropWhile_cons, if_neg (by simpa using hat)]
  have hform : text.map Char.toUpper ∉ ["IF", "FOR", "REM"] := by
    rw [show text.map Char.toUpper = "CALL" from hname]
    decide
  have hunglued : Parser.Unglued us := by
    intro u vs hu
    subst hu
    have hleading := (hus u List.mem_cons_self).2
    simp [Parser.isGlued, hleading]
  have hcurrent : (Parser.SimpleScan.start.addText t.leading text).current = some text := rfl
  obtain ⟨args, hfinish⟩ := Parser.SimpleScan.foldl_addWord_apart (fun u hu => (hus u hu).2) hcurrent
  refine ⟨args, Parser.ofTokens?_simple ⟨rfl, quoted, hlexeme⟩ hat hform hunglued ?_⟩
  rw [Parser.simpleFrom_words fun u hu => (hus u hu).1, hfinish]
  simp [Parser.SimpleScan.addText, Parser.SimpleScan.start, hdrop]

/-- A line that is `CALL` and words runs `CALL` on the words as they were written, with their references replaced. -/
theorem Engine.runLine_call (e : Engine) (again : Again) {line : String} {t : Token} {us : List Token}
    (hscan : Token.scan line = t :: us) (htext : t.text = name) (hwords : ∀ u ∈ Token.scan line, u.isWord = true)
    (stdin : String) (m : Machine) :
    e.runLine again line stdin m =
      match Expansion.expandTokens m.host.files m.host.now m.state us with
      | .error why => some (.crashed why, m)
      | .ok vs => e.counted (m.pass line.utf8ByteSize) fun m' =>
        Run.recorded (runCall again (m.fill (rawText vs)) stdin m') := by
  have hsign := (Token.scan_words_iff line).mp hwords
  obtain ⟨hleading, -⟩ := scanFrom_tail line.toList rfl hsign 0 [] hscan
  rw [hscan] at hwords
  obtain ⟨ht, hus⟩ := List.forall_mem_cons.mp hwords
  have hpercent : '%' ∉ name.toList := not_mem_of_upper_call hname (by decide)
  have hall := Expansion.expandTokens_cons_of_not_mem m.host.files m.host.now m.state ht (htext ▸ hpercent) us
  rw [← hscan] at hall
  cases hexpand : Expansion.expandTokens m.host.files m.host.now m.state us with
  | error why =>
    rw [hexpand, Except.map_error] at hall
    simp only [Engine.runLine, hall]
  | ok vs =>
    rw [hexpand, Except.map_ok] at hall
    obtain ⟨args, hread⟩ := ofTokens?_call hname ht htext (Expansion.expandTokens_kept hexpand hus hleading)
    let passed := m.pass line.utf8ByteSize
    have hfill : passed.fill name = name := Expansion.fillLoopVars_of_not_mem _ _ _ hpercent
    have hnonempty : passed.fill name ≠ "" := by
      rw [hfill]
      rintro rfl
      cases toList_of_upper_call hname
    let c : SimpleCommand := ⟨name, args, rawText vs, []⟩
    have hcommand := e.runCommand_unredirected again (m := passed) (c := c) rfl hnonempty stdin
    simp only [Engine.runLine, hall, hread]
    rw [hcommand, hfill]
    simp only [dispatch_call hname, c]
    rfl

end

/-- Without percent signs and carets, the text of the words is read again as it stood on the line. -/
theorem calledText_words {line : String} {t : Token} {us : List Token} (hscan : Token.scan line = t :: us)
    (hwords : ∀ u ∈ Token.scan line, u.isWord = true) (hpercent : '%' ∉ line.toList) (hcaret : '^' ∉ line.toList)
    (m m' : Machine) :
    Expansion.expandTokens m.host.files m.host.now m.state us = .ok us ∧
      ∃ text, m'.calledText (m.fill (rawText us)) = .ok text ∧ ∀ u ∈ Token.scan text, u.isWord = true := by
  have hsign := (Token.scan_words_iff line).mp hwords
  obtain ⟨-, htail⟩ := scanFrom_tail line.toList rfl hsign 0 [] hscan
  obtain ⟨trailing, hsuffix, hafter⟩ := htail hcaret
  rw [hscan] at hwords
  obtain ⟨-, hus⟩ := List.forall_mem_cons.mp hwords
  have hraw : '%' ∉ (rawText us).toList := fun h => hpercent (hsuffix.subset (List.mem_append_left _ h))
  have htrimmed : (Text.trimStart (rawText us)).toList = (rawText us).toList.dropWhile Text.isBlank := by
    rw [Text.trimStart, Text.dropStart, String.toList_ofList]
  have htext : '%' ∉ (Text.trimStart (rawText us)).toList := by
    rw [htrimmed]
    exact fun h => hraw ((List.dropWhile_suffix _).subset h)
  have hfill : m.fill (rawText us) = rawText us := Expansion.fillLoopVars_of_not_mem _ _ _ hraw
  refine ⟨Expansion.expandTokens_of_not_mem _ _ _ hraw hus, Text.trimStart (rawText us), ?_, ?_⟩
  · rw [hfill]
    exact Expansion.expandPercent_of_not_mem _ _ _ htext
  · rw [Token.scan_words_iff, htrimmed]
    exact bareSign_dropWhile_isBlank (bareSign_append_left hafter)

/-- **`CALL` reads its text a second time.** A line that is `CALL` and words runs one command, `CALL`, on the words
with their references replaced. What that text expands to is read as a line: if it has words only, at most one simple
command runs and no file is opened. If there are no percent signs and no carets on the line, so that nothing is
inserted and nothing was escaped, it has words only. Nothing runs if a text cannot be expanded, which takes a percent
sign. -/
theorem Engine.call_reads_text_again (e : Engine) (m : Machine) (line stdin : String) (t : Token) (us : List Token)
    (hscan : Token.scan line = t :: us) (hname : Text.upper t.text = "CALL")
    (hwords : ∀ u ∈ Token.scan line, u.isWord = true) :
    (∀ why, Expansion.expandTokens m.host.files m.host.now m.state us = .error why →
      ∀ again, e.runLine again line stdin m = some (.crashed why, m)) ∧
    (∀ vs, Expansion.expandTokens m.host.files m.host.now m.state us = .ok vs →
      let raw := m.fill (rawText vs)
      (∀ again, e.runLine again line stdin m = e.counted (m.pass line.utf8ByteSize) fun m' =>
          Run.recorded (runCall again raw stdin m')) ∧
        ∀ m' : Machine,
          (∀ why, m'.calledText raw = .error why → ∀ again, runCall again raw stdin m' = some (.crashed why, m')) ∧
          ∀ text, m'.calledText raw = .ok text → (∀ u ∈ Token.scan text, u.isWord = true) →
            CallsOnce raw stdin m') ∧
    ('%' ∉ line.toList → '^' ∉ line.toList →
      Expansion.expandTokens m.host.files m.host.now m.state us = .ok us ∧ ∀ m' : Machine,
        ∃ text, m'.calledText (m.fill (rawText us)) = .ok text ∧ ∀ u ∈ Token.scan text, u.isWord = true) := by
  have hrun (again : Again) := Engine.runLine_call hname e again hscan rfl hwords stdin m
  refine ⟨fun why hexpand again => ?_, fun vs hexpand => ⟨fun again => ?_, fun m' => ⟨fun why hwhy again => ?_,
    fun text htext h => runCall_once htext h stdin⟩⟩, fun hpercent hcaret => ?_⟩
  · rw [hrun, hexpand]
  · rw [hrun, hexpand]
  · exact runCall_of_error hwhy again stdin
  · have hplain := calledText_words hscan hwords hpercent hcaret m
    exact ⟨(hplain m).1, fun m' => (hplain m').2⟩

/-- An operator in quotes. -/
theorem Engine.call_reads_text_again_quoted :
    ∃ raw, (∀ again, Engine.bare.runLine again "call echo \"a & b\"" "" .inScript =
        Engine.bare.counted .inScript fun m' => Run.recorded (runCall again raw "" m')) ∧
      CallsOnce raw "" Machine.inScript.count.noteStart := by
  have hscan : Token.scan "call echo \"a & b\"" =
      [⟨.word "call" false, 0, 4, ""⟩, ⟨.word "echo" false, 5, 9, " "⟩, ⟨.word "\"a & b\"" true, 10, 17, " "⟩] := by
    decide +kernel
  have hname : Text.upper "call" = "CALL" := by decide +kernel
  have hwords : ∀ u ∈ Token.scan "call echo \"a & b\"", u.isWord = true := by
    rw [hscan]
    decide
  obtain ⟨-, hexpanded, hplain⟩ := Engine.call_reads_text_again .bare .inScript _ "" _ _ hscan hname hwords
  obtain ⟨hexpand, hcalled⟩ := hplain (by decide) (by decide)
  obtain ⟨hrun, honce⟩ := hexpanded _ hexpand
  obtain ⟨text, htext, hsingle⟩ := hcalled Machine.inScript.count.noteStart
  exact ⟨_, hrun, (honce _).2 text htext hsingle⟩

/-- A machine on which a variable has a text. -/
def Machine.withVariable (name value : String) : Machine :=
  ⟨State.initial (Environment.empty.set name value) "/", ⟨.empty, fun _ => .epoch, false, [], 0⟩⟩

/-- The value of a variable becomes a second command, and so does what follows an escaped sign; an escaped sign opens
a file. -/
theorem Engine.call_splits_text :
    (Engine.bare.perform 3 (.line "call echo %X%") "" (.withVariable "X" "a& echo b")).map Prod.fst =
        some (.done ⟨"a\nb\n", "", 0⟩) ∧
      (Engine.bare.perform 3 (.line "call echo a^& echo b") "" (.withVariable "X" "")).map Prod.fst =
        some (.done ⟨"a\nb\n", "", 0⟩) ∧
      (Engine.bare.perform 3 (.line "call echo a ^> f") "" (.withVariable "X" "")).map
        (fun r => (r.1, r.2.host.files.has "/f")) = some (.done ⟨"", "", 0⟩, true) := by
  refine ⟨?_, ?_, ?_⟩ <;> decide +kernel

end BatchShell
