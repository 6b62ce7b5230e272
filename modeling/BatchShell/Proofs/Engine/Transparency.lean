import BatchShell.Proofs.Engine.Frames
import BatchShell.Proofs.Environment.Lookup
import BatchShell.Proofs.Parser.Grammar
import BatchShell.Proofs.Token.RoundTrip

/-!
# A value comes back as it was set

A line that sets a variable to a quoted text and a line that prints the variable go through every stage there
is: they are divided into tokens, expanded, read and run. `set_then_echo` says that no stage gives a meaning to a
character of the value. In quotes nothing ends a word but a line feed; the value is inserted into a word that
is already divided off; and what follows `ECHO.` in its word is printed as it stands.

* `scanFrom_word`, `scanWord_append`: a run of characters that leave the mode as it is goes into one word.
* `expandFrom_of_not_mem`, `expandFrom_reference`: text without percent signs stays, a reference is replaced.
* `ofTokens?_simple`: the command that words apart from each other spell.
* `Engine.runTask_simple`: a line that is a command without redirections, outside loops.
-/
namespace BatchShell

/-! ## Names -/

/-- A character of a name, after the first. -/
def isNameChar (c : Char) : Bool := Text.isLetterOrNumeral c || c == '_'

/-- A letter or an underscore, and then letters, numerals and underscores. -/
def isIdentifier (name : String) : Bool :=
  match name.toList with
  | [] => false
  | c :: cs => (Text.isLetter c || c == '_') && cs.all isNameChar

/-- The signs that mean something to one of the stages. -/
def signs : List Char :=
  ['\n', '"', '^', ' ', '\t', '\r', '&', '|', '<', '>', '(', ')', '%', '=', ':', '*', '~']

theorem not_mem_signs {c : Char} (h : isNameChar c = true) : c ∉ signs := by
  have hsigns : signs.all (fun d => !isNameChar d) = true := by decide
  intro hmem
  have hno := List.all_eq_true.mp hsigns c hmem
  rw [h] at hno
  cases hno

theorem isDigit_eq_false {c : Char} (h : (Text.isLetter c || c == '_') = true) : c.isDigit = false := by
  have hdigits : ∀ d : Fin 10,
      (Text.isLetter (Char.ofNat (48 + d)) || Char.ofNat (48 + d) == '_') = false := by decide
  rw [Bool.eq_false_iff]
  intro hdigit
  have hrange : 48 ≤ c.toNat ∧ c.toNat ≤ 57 := by
    simpa [Char.isDigit, UInt32.le_iff_toNat_le] using hdigit
  have hc : Char.ofNat (48 + (c.toNat - 48)) = c := by
    rw [Nat.add_sub_cancel' hrange.1, Char.ofNat_toNat]
  have hno := hdigits ⟨c.toNat - 48, by omega⟩
  rw [hc] at hno
  cases hno.symm.trans h

/-- What a name starts with, and what it is made of. -/
theorem isIdentifier_cons {name : String} (h : isIdentifier name = true) :
    ∃ c cs, name.toList = c :: cs ∧ c.isDigit = false ∧ ∀ d ∈ name.toList, d ∉ signs := by
  unfold isIdentifier at h
  split at h
  · cases h
  · rename_i c cs hname
    obtain ⟨hfirst, hrest⟩ := Bool.and_eq_true_iff.mp h
    refine ⟨c, cs, hname, isDigit_eq_false hfirst, ?_⟩
    rw [hname]
    intro d hd
    refine not_mem_signs ?_
    obtain rfl | hd := List.mem_cons.mp hd
    · rw [isNameChar, Text.isLetterOrNumeral, Bool.or_right_comm, hfirst, Bool.true_or]
    · exact List.all_eq_true.mp hrest d hd

/-! ## Dividing the lines -/

section

variable {inBlock : Bool} {mode : WordMode} {c : Char} {w : WordScan} {cs : List Char}

theorem WordScan.push_text (h : mode.next inBlock c = some mode) (w : WordScan) :
    (w.push mode c).text = c :: w.text := by
  have hcaret : ¬ (mode == .plain && c == '^') = true := by
    intro hplain
    simp only [Bool.and_eq_true, beq_iff_eq] at hplain
    obtain ⟨rfl, rfl⟩ := hplain
    cases h
  rw [WordScan.push, if_neg hcaret]

/-- Characters that leave the mode as it is go into the word. -/
theorem scanWord_append (h : ∀ c ∈ cs, mode.next inBlock c = some mode) (w : WordScan) (rest : List Char) :
    ∃ w', scanWord inBlock mode w (cs ++ rest) = scanWord inBlock mode w' rest ∧
      w'.text = cs.reverse ++ w.text := by
  induction cs generalizing w with
  | nil => exact ⟨w, rfl, rfl⟩
  | cons c cs ih =>
    have hc := h c List.mem_cons_self
    obtain ⟨w', hscan, htext⟩ := ih (fun d hd => h d (List.mem_cons_of_mem c hd)) (w.push mode c)
    refine ⟨w', ?_, ?_⟩
    · rw [List.cons_append, scanWord, hc]
      exact hscan
    · rw [htext, WordScan.push_text hc, List.reverse_cons, List.append_assoc]
      rfl

theorem WordMode.next_quoted (inBlock : Bool) (hquote : c ≠ '"') (hfeed : c ≠ '\n') :
    WordMode.quoted.next inBlock c = some .quoted := by
  simp [WordMode.next, hquote, hfeed]

end

/-- The token is a word with this text, after this white space. -/
def Token.IsWord (t : Token) (leading text : String) : Prop :=
  t.leading = leading ∧ ∃ quoted, t.lexeme = .word text quoted

/-- A word at the start of what is left becomes the next token. -/
theorem scanFrom_word (depth pos : Nat) (leading : List Char) (done : List Token) {c : Char}
    {rest after : List Char} {mode : WordMode} {w : WordScan}
    (hnext : WordMode.plain.next (0 < depth) c = some mode) (hsign : redirectAt? c rest = none)
    (hword : scanWord (0 < depth) .plain ⟨[], 0, 0, false⟩ (c :: rest) = (w, after)) :
    ∃ t pos', t.IsWord (String.ofList leading.reverse) (String.ofList w.text.reverse) ∧
      scanFrom depth pos leading done (c :: rest) = scanFrom depth pos' [] (t :: done) after := by
  obtain ⟨hgap, hlexeme⟩ := lexemeAt_word hnext hsign
  obtain ⟨size, hscan⟩ : ∃ size, scanFrom depth pos leading done (c :: rest) = _ := scanFrom_cons hgap
  rw [hword] at hlexeme
  rw [hlexeme] at hscan
  exact ⟨_, pos + size, ⟨rfl, _, rfl⟩, hscan⟩

/-- The line that sets a variable to a quoted text has two words. -/
theorem scan_set {body : String} (h : ∀ c ∈ body.toList, c ≠ '"' ∧ c ≠ '\n') :
    ∃ t u, Token.scan ("set \"" ++ body ++ "\"") = [t, u] ∧ t.IsWord "" "set" ∧
      u.IsWord " " ("\"" ++ body ++ "\"") := by
  have hline : ("set \"" ++ body ++ "\"").toList = 's' :: 'e' :: 't' :: ' ' :: '"' :: (body.toList ++ ['"']) := by
    simp
  obtain ⟨w, hbody, htext⟩ := scanWord_append
    (fun c hc => WordMode.next_quoted false (h c hc).1 (h c hc).2) (WordScan.push ⟨[], 0, 0, false⟩ .plain '"') ['"']
  have hname (rest : List Char) : scanWord (0 < 0) .plain ⟨[], 0, 0, false⟩ ('s' :: 'e' :: 't' :: ' ' :: rest) =
      (⟨['t', 'e', 's'], 3, 0, true⟩, ' ' :: rest) := rfl
  have hquoted : scanWord (0 < 0) .plain ⟨[], 0, 0, false⟩ ('"' :: (body.toList ++ ['"'])) =
      (w.push .quoted '"', []) := hbody
  obtain ⟨t, pos, ht, hfirst⟩ := scanFrom_word 0 0 [] [] rfl rfl (hname ('"' :: (body.toList ++ ['"'])))
  obtain ⟨u, pos', hu, hsecond⟩ := scanFrom_word 0 (pos + 1) [' '] [t] rfl rfl hquoted
  refine ⟨t, u, ?_, ht, ?_⟩
  · rw [Token.scan, hline, hfirst, scanFrom_gap rfl, hsecond, scanFrom]
    rfl
  · have hpush : (w.push .quoted '"').text = '"' :: w.text := rfl
    have hall : String.ofList (w.push .quoted '"').text.reverse = "\"" ++ body ++ "\"" := by
      rw [hpush, htext]
      simp [String.ext_iff, WordScan.push]
    rwa [hall] at hu

/-- The line that prints a variable is one word. -/
theorem scan_echo {name : String} (h : ∀ c ∈ name.toList, c ∉ signs) :
    ∃ t, Token.scan ("echo.%" ++ name ++ "%") = [t] ∧ t.IsWord "" ("echo.%" ++ name ++ "%") := by
  have hline : ("echo.%" ++ name ++ "%").toList = 'e' :: ("cho.%".toList ++ name.toList ++ ['%']) := by
    simp
  have hplain : ∀ c ∈ 'e' :: ("cho.%".toList ++ name.toList ++ ['%']), WordMode.plain.next false c = some .plain := by
    intro c hc
    have hcases : c ∈ "echo.%".toList ∨ c ∈ name.toList := by
      simp at hc ⊢
      tauto
    obtain hfixed | hname := hcases
    · have hall : "echo.%".toList.all (WordMode.plain.next false · == some .plain) = true := by decide
      exact beq_iff_eq.mp (List.all_eq_true.mp hall c hfixed)
    · have hc := h c hname
      simp only [signs, List.mem_cons, not_or] at hc
      simp [WordMode.next, endsWord, hc]
  obtain ⟨w, hword, htext⟩ := scanWord_append hplain ⟨[], 0, 0, false⟩ []
  rw [List.append_nil] at hword
  obtain ⟨t, pos, ht, hscan⟩ := scanFrom_word 0 0 [] [] rfl rfl hword
  refine ⟨t, ?_, ?_⟩
  · rw [Token.scan, hline, hscan, scanFrom]
    rfl
  · rw [htext, List.append_nil, List.reverse_reverse, ← hline, String.ofList_toList] at ht
    exact ht

/-! ## Expansion -/

namespace Expansion

section

variable (files : FileTree) (now : Nat → Ambient) (s : State)

/-- A text without percent signs stays as it is. -/
theorem expandFrom_append {cs : List Char} (h : '%' ∉ cs) (rest : List Char) :
    expandFrom files now s (cs ++ rest) = (expandFrom files now s rest).map (cs ++ ·) := by
  induction cs with
  | nil =>
    rw [List.nil_append]
    cases expandFrom files now s rest <;> rfl
  | cons c cs ih =>
    obtain ⟨hc, hcs⟩ := not_or.mp (List.mem_cons.not.mp h)
    rw [List.cons_append, expandFrom, if_pos (by simpa using fun h => hc h.symm), ih hcs, Except.map_map]
    rfl

theorem expandFrom_of_not_mem {cs : List Char} (h : '%' ∉ cs) : expandFrom files now s cs = .ok cs := by
  have hall := expandFrom_append files now s h []
  rwa [List.append_nil, expandFrom, Except.map_ok, List.append_nil] at hall

theorem expandPercent_of_not_mem {text : String} (h : '%' ∉ text.toList) :
    expandPercent files now s text = .ok text := by
  rw [expandPercent, expandFrom_of_not_mem files now s h, Except.map_ok, String.ofList_toList]

/-- A name after a percent sign is no parameter. -/
theorem parameter?_eq_none {c : Char} (hdigit : c.isDigit = false) (hsign : c ∉ signs) (cs : List Char) :
    parameter? files s (c :: cs) = none := by
  simp only [signs, List.mem_cons, not_or] at hsign
  simp [parameter?, hdigit, hsign]

theorem enclosed?_name {name : List Char} (hname : name ≠ []) (h : ∀ c ∈ name, c ∉ signs) (rest : List Char) :
    enclosed? (name ++ '%' :: rest) = some (name, rest) := by
  have hinside : ∀ c ∈ name, (!endsReference c) = true := by
    intro c hc
    have hc := h c hc
    simp only [signs, List.mem_cons, not_or] at hc
    simp [endsReference, hc]
  have htake : (name ++ '%' :: rest).takeWhile (fun c => !endsReference c) = name := by
    rw [List.takeWhile_append_of_pos hinside]
    exact List.append_nil name
  have hdrop : (name ++ '%' :: rest).dropWhile (fun c => !endsReference c) = '%' :: rest := by
    rw [List.dropWhile_append_of_pos hinside]
    rfl
  simp only [enclosed?, htake, hdrop]
  rw [if_neg (by simpa using hname)]

/-- A reference is replaced by its value, which is not read again. -/
theorem expandFrom_reference {name : List Char} {value : String} (hname : name ≠ [])
    (hdigit : ∀ c cs, name = c :: cs → c.isDigit = false) (h : ∀ c ∈ name, c ∉ signs)
    (rest : List Char)
    (hvalue : expandReference? (now (name ++ '%' :: rest).length) s (String.ofList name) = .ok (some value)) :
    expandFrom files now s ('%' :: (name ++ '%' :: rest)) =
      (expandFrom files now s rest).map (value.toList ++ ·) := by
  have hparam : (if s.inBatch then parameter? files s (name ++ '%' :: rest) else none) = none := by
    cases name with
    | nil => cases hname rfl
    | cons c cs =>
      rw [List.cons_append, parameter?_eq_none files s (hdigit c cs rfl) (h c List.mem_cons_self), ite_self]
  rw [expandFrom, if_neg (by decide)]
  split
  · rename_i heq
    cases hparam.symm.trans heq
  · split
    · rename_i heq
      cases (enclosed?_name hname h rest).symm.trans heq
      rw [hvalue]
    · rename_i heq
      cases (enclosed?_name hname h rest).symm.trans heq

end

/-- A name without a colon is a reference to the variable. -/
theorem expandReference?_of_not_mem (now : Ambient) (s : State) {name : String} (h : ':' ∉ name.toList) :
    expandReference? now s name = .ok (variableValue? now s name) := by
  rw [expandReference?, Text.cutAt_of_not_mem h]

theorem expandReference?_name (now : Ambient) {s : State} {name value : String} (h : ':' ∉ name.toList)
    (hvalue : s.env.get? name = some value) : expandReference? now s name = .ok (some value) := by
  rw [expandReference?_of_not_mem now s h]
  simp only [variableValue?, hvalue]

/-- A word that expands to the same text at all times. -/
theorem expandToken_word {files : FileTree} {s : State} {t : Token} {leading text expanded : String}
    (h : t.IsWord leading text) (hexpand : ∀ now, expandPercent files now s text = .ok expanded)
    (now : Nat → Ambient) : ∃ t', expandToken files now s t = .ok t' ∧ t'.IsWord leading expanded := by
  obtain ⟨hleading, quoted, hlexeme⟩ := h
  refine ⟨{ t with lexeme := .word expanded quoted }, ?_, hleading, quoted, rfl⟩
  rw [expandToken, hlexeme]
  dsimp only
  rw [hexpand]
  rfl

/-- Nothing is expanded in a line that sets a variable to a text without percent signs. -/
theorem expand_set (files : FileTree) (now : Nat → Ambient) (s : State) {body : String}
    (h : ∀ c ∈ body.toList, c ≠ '"' ∧ c ≠ '%' ∧ c ≠ '\n') :
    ∃ t u, expandTokens files now s (Token.scan ("set \"" ++ body ++ "\"")) = .ok [t, u] ∧ t.IsWord "" "set" ∧
      u.IsWord " " ("\"" ++ body ++ "\"") := by
  obtain ⟨t, u, hscan, ht, hu⟩ := scan_set fun c hc => ⟨(h c hc).1, (h c hc).2.2⟩
  have hname : '%' ∉ "set".toList := by decide
  have hbody : '%' ∉ ("\"" ++ body ++ "\"").toList := by
    have hpercent : '%' ∉ body.toList := fun hmem => (h '%' hmem).2.1 rfl
    simpa using hpercent
  obtain ⟨t', hfirst, ht'⟩ := expandToken_word ht (fun now => expandPercent_of_not_mem files now s hname) now
  obtain ⟨u', hsecond, hu'⟩ := expandToken_word hu (fun now => expandPercent_of_not_mem files now s hbody) now
  refine ⟨t', u', ?_, ht', hu'⟩
  rw [expandTokens, hscan, List.mapM_cons, List.mapM_cons, List.mapM_nil, hfirst, hsecond]
  rfl

/-- The value of the variable takes the place of the reference, in the same word. -/
theorem expand_echo (files : FileTree) (now : Nat → Ambient) (s : State) {name value : String}
    (hname : isIdentifier name = true) (hvalue : s.env.get? name = some value) :
    ∃ t, expandTokens files now s (Token.scan ("echo.%" ++ name ++ "%")) = .ok [t] ∧
      t.IsWord "" ("echo." ++ value) := by
  obtain ⟨c, cs, hchars, hdigit, hsigns⟩ := isIdentifier_cons hname
  obtain ⟨t, hscan, ht⟩ := scan_echo hsigns
  have hcolon : ':' ∉ name.toList := fun hmem => hsigns ':' hmem (by decide)
  have htext (now : Nat → Ambient) :
      expandPercent files now s ("echo.%" ++ name ++ "%") = .ok ("echo." ++ value) := by
    have hline : ("echo.%" ++ name ++ "%").toList = "echo.".toList ++ '%' :: (name.toList ++ '%' :: []) := by simp
    have hfixed : '%' ∉ "echo.".toList := by decide
    have hdigits : ∀ d ds, name.toList = d :: ds → d.isDigit = false := by
      intro d ds hds
      cases hchars.symm.trans hds
      exact hdigit
    have hreference := expandFrom_reference files now s (by simp [hchars]) hdigits hsigns []
      (by rw [String.ofList_toList]; exact expandReference?_name _ hcolon hvalue)
    rw [expandPercent, hline, expandFrom_append files now s hfixed, hreference, expandFrom, Except.map_ok,
      Except.map_ok, Except.map_ok, List.append_nil]
    simp [String.ext_iff]
  obtain ⟨t', hexpand, ht'⟩ := expandToken_word ht htext now
  refine ⟨t', ?_, ht'⟩
  rw [expandTokens, hscan, List.mapM_cons, List.mapM_nil, hexpand]
  rfl

end Expansion

/-! ## Reading -/

namespace Parser

/-- A line whose first word starts no form is one simple command, when all of its tokens go into it. -/
theorem ofTokens?_simple {t : Token} {us : List Token} {leading name : String} {c : SimpleCommand}
    (ht : t.IsWord leading name) (hat : name.toList.head? ≠ some '@')
    (hform : name.map Char.toUpper ∉ ["IF", "FOR", "REM"]) (hus : Unglued us)
    (hread : bare (simpleFrom (SimpleScan.start.addText leading name) us) = .ok (c, [])) :
    Command.ofTokens? (t :: us) = .ok (some (.simple c)) := by
  obtain ⟨hleading, quoted, hlexeme⟩ := ht
  have hstart : t.isOperator = false := by rw [Token.isOperator, hlexeme]
  have hkeyword : keywordAt (t :: us) = some (name.map Char.toUpper) := by
    have hdrop : name.toList.dropWhile (· == '@') = name.toList := by
      cases hchars : name.toList with
      | nil => rfl
      | cons d ds =>
        rw [hchars, List.head?_cons, ne_eq, Option.some.injEq] at hat
        rw [List.dropWhile_cons, if_neg (by simpa using hat)]
    have happend := keywordAt_append hus t []
    rw [List.nil_append] at happend
    rw [happend, keywordAt, peekWord?, word?, hlexeme]
    simp [glued, hdrop]
  have hsimple : bare (simple t us) = .ok (c, []) := by
    rw [simple_eq_simpleFrom hstart, simpleFrom_cons, hlexeme, hleading]
    exact hread
  have hstarts : ¬ StartsForm (t :: us) := by
    simpa [StartsForm, hkeyword] using hform
  have hcommand : Spells false maxDepth false .command (rise (t :: us)) (t :: us) (.simple c) :=
    .simple hstart hstarts hsimple
  have hlines := Spells.lines (.nil false) hcommand.stage.link.item (.inl ⟨rfl, rfl⟩)
  rw [List.nil_append, List.append_nil] at hlines
  exact hlines.ofTokens?

/-- Everything after the name is the text that `SET` reads. -/
theorem ofTokens?_set {t u : Token} {arg : String} (ht : t.IsWord "" "set") (hu : u.IsWord " " arg) :
    Command.ofTokens? [t, u] = .ok (some (.simple ⟨"set", [arg], " " ++ arg, []⟩)) := by
  obtain ⟨hleading, quoted, hlexeme⟩ := hu
  refine ofTokens?_simple ht (by decide) (by decide +kernel) ?_ ?_
  · intro w ws hws
    cases hws
    simp [isGlued, hleading]
  · rw [simpleFrom_cons, hlexeme, hleading]
    dsimp only
    rw [simpleFrom_nil]
    simp [SimpleScan.addText, SimpleScan.finish, SimpleScan.start, SimpleScan.closeWord, String.ext_iff]

/-- Whatever follows the sign, a word that starts with `ECHO.` is the name of a command. -/
theorem ofTokens?_echo {t : Token} {text : String} (ht : t.IsWord "" ("echo." ++ text)) :
    Command.ofTokens? [t] = .ok (some (.simple ⟨"echo." ++ text, [], "", []⟩)) := by
  refine ofTokens?_simple ht (by simp) ?_ ?_ ?_
  · simp [String.ext_iff, String.toList_map]
  · intro w ws hws
    cases hws
  · rw [simpleFrom_nil]
    simp [SimpleScan.addText, SimpleScan.finish, SimpleScan.start, SimpleScan.closeWord, String.ext_iff]

end Parser

/-! ## Running -/

/-- Without redirections an outcome passes as it is. -/
theorem Plan.deliverOutcome_standard (o : Outcome) (files : FileTree) :
    Plan.standard.deliverOutcome o files = (o, files) := by
  have hdeliver (r : Result) : Plan.standard.deliver r files = (r, files) := by
    obtain ⟨out, err, status⟩ := r
    simp only [Plan.deliver, Plan.route, Plan.standard]
    split <;> split <;> simp_all
  cases o with
  | done r => simp [Plan.deliverOutcome, hdeliver]
  | raised signal out err => simp [Plan.deliverOutcome, hdeliver]
  | crashed why => rfl

theorem redirected_nil (stdin : String) (m : Machine) (body : String → Machine → Run) :
    redirected [] stdin m body = body stdin m := by
  have hsame (m : Machine) : m.withFiles m.host.files = m := rfl
  simp only [redirected, Plan.prepare, Plan.addAll, hsame]
  change (body stdin m).map _ = body stdin m
  simp [Plan.deliverOutcome_standard, hsame]

/-- A text with the letters of the active loops filled in. -/
def Machine.fill (m : Machine) (text : String) : String :=
  Expansion.fillLoopVars m.host.files m.state.cwd m.state.loops text

/-- What a command name means here. -/
def Machine.resolve (m : Machine) (name : String) : Resolution :=
  Resolution.find m.host.files m.state.env m.state.cwd name

/-- A command without redirections is counted and dispatched. -/
theorem Engine.runCommand_unredirected (e : Engine) (again : Again) {m : Machine} {c : SimpleCommand}
    (hredirections : c.redirections = []) (hname : m.fill c.name ≠ "") (stdin : String) :
    e.runCommand again (.simple c) stdin m = e.counted m fun m' => Run.recorded (e.dispatch again false
      (m.fill c.name) (c.args.map m.fill) (m.fill c.rawArgs) stdin m') := by
  have hrun : e.runSimple again false c stdin m.count.noteStart = Run.recorded (e.dispatch again false
      (m.fill c.name) (c.args.map m.fill) (m.fill c.rawArgs) stdin m.count.noteStart) := by
    simp only [runSimple, hredirections, redirected_nil, String.isEmpty_iff]
    exact if_neg hname
  simp only [runCommand, counted, hrun]

/-- Something that may start does. -/
theorem Engine.counted_start {e : Engine} {m : Machine} (hbreak : m.host.interrupted = false)
    (hbudget : m.state.commandCount < e.limits.commands) (body : Machine → Run) :
    e.counted m body = body m.count.noteStart := by
  have hcount : ¬ e.limits.commands < m.count.state.commandCount := Nat.not_lt.mpr hbudget
  rw [counted, hbreak, if_neg Bool.false_ne_true, if_neg hcount]

/-- A line that is one command without redirections, run outside loops. -/
theorem Engine.runTask_simple (e : Engine) (stdin : String) {line : String} {m : Machine} {tokens : List Token}
    {c : SimpleCommand}
    (hexpand : Expansion.expandTokens m.host.files m.host.now m.state (Token.scan line) = .ok tokens)
    (hread : Command.ofTokens? tokens = .ok (some (.simple c)))
    (hredirections : c.redirections = []) (hname : c.name ≠ "") (hloops : m.state.loops = [])
    (hbreak : m.host.interrupted = false) (hbudget : m.state.commandCount < e.limits.commands) :
    ∃ again, e.runTask (.line line) stdin m =
      Run.recorded (e.dispatch again false c.name c.args c.rawArgs stdin
        (m.pass line.utf8ByteSize).count.noteStart) := by
  obtain ⟨levels, hlevels⟩ : ∃ levels, maxLevels = levels + 1 := ⟨999999, rfl⟩
  have hfill (files : FileTree) (cwd : String) : Expansion.fillLoopVars files cwd [] = id := rfl
  refine ⟨e.perform levels, ?_⟩
  rw [Engine.runTask, hlevels, Engine.perform]
  simp only [Engine.runLine, hexpand, hread, Engine.runCommand]
  rw [Engine.counted_start (m := m.pass line.utf8ByteSize) hbreak hbudget]
  have hloops' : (m.pass line.utf8ByteSize).count.noteStart.state.loops = [] := hloops
  simp only [Engine.runSimple, hredirections, redirected_nil, hloops', hfill, id_eq, List.map_id,
    String.isEmpty_iff, hname, if_false]

/-! ## The two commands -/

namespace Builtin

open Text

theorem unquote_quoted (body : String) : unquote ("\"" ++ body ++ "\"") = body := by
  have hchars : ("\"" ++ body ++ "\"").toList = '"' :: (body.toList ++ ['"']) := by simp
  simp [unquote, hchars]

/-- Quotes keep the white space inside them. -/
theorem trim_quoted (body : String) : trimStart ("\"" ++ body ++ "\"") = "\"" ++ body ++ "\"" ∧
    trim ("\"" ++ body ++ "\"") = "\"" ++ body ++ "\"" := by
  have hchars : ("\"" ++ body ++ "\"").toList = '"' :: (body.toList ++ ['"']) := by simp
  have hquote : ¬ isBlank '"' = true := by decide
  have hstart : trimStart ("\"" ++ body ++ "\"") = "\"" ++ body ++ "\"" := by
    rw [trimStart, dropStart, hchars, List.dropWhile_cons, if_neg hquote, ← hchars, String.ofList_toList]
  refine ⟨hstart, ?_⟩
  have hreverse : ("\"" ++ body ++ "\"").toList.reverse = '"' :: ('"' :: body.toList).reverse := by simp
  rw [trim, hstart, trimEnd, dropEnd, hreverse, List.dropWhile_cons, if_neg hquote, ← hreverse,
    List.reverse_reverse, String.ofList_toList]

/-- `SET` with a quoted assignment. -/
theorem runSet_quoted {name value : String} (hname : name ≠ "") (hsign : '=' ∉ name.toList) (hvalue : value ≠ "")
    (s : State) (stdin : String) :
    runSet s (" " ++ ("\"" ++ (name ++ "=" ++ value) ++ "\"")) stdin =
      (.done .ok, { s with env := s.env.set name value }) := by
  have hcut : cutAt '=' (name ++ "=" ++ value) = some (name, value) := cutAt_append hsign value
  generalize name ++ "=" ++ value = body at hcut
  have htext : trimStart (" " ++ ("\"" ++ body ++ "\"")) = "\"" ++ body ++ "\"" := by
    have hblank : isBlank ' ' = true := by decide
    have hchars : (" " ++ ("\"" ++ body ++ "\"")).toList = ' ' :: ("\"" ++ body ++ "\"").toList := by simp
    rw [trimStart, dropStart, hchars, List.dropWhile_cons, if_pos hblank]
    exact (trim_quoted body).1
  have hswitch (letter : Char) : afterSwitch? letter ("\"" ++ body ++ "\"") = none := by
    simp [afterSwitch?]
  have hsome : ¬ "\"" ++ body ++ "\"" = "" := by simp [String.ext_iff]
  simp only [runSet, htext, hswitch, (trim_quoted body).2, hsome, unquote_quoted, hcut, setVariable,
    String.isEmpty_iff, hname, hvalue, if_false]

theorem echoText?_echo (text : String) : echoText? ("echo." ++ text) = some text := by
  have hchars : ("echo." ++ text).toList = 'e' :: 'c' :: 'h' :: 'o' :: '.' :: text.toList := by simp
  have hname : sameIgnoringCase (String.ofList ['e', 'c', 'h', 'o']) "ECHO" = true := by
    rw [sameIgnoringCase, beq_iff_eq, String.ext_iff]
    simp [upper, String.toList_map]
  have hsign : endsEcho '.' = true := by simp [endsEcho]
  unfold echoText?
  rw [hchars]
  dsimp only
  rw [hname, hsign, Bool.and_self, if_pos rfl, String.ofList_toList]

end Builtin

namespace Environment

open Text

/-- An assignment changes what is read under its name, and nothing else. -/
theorem get?_set (env : Environment) (name value other : String) :
    (env.set name value).get? other = if upper other = upper name then some value else env.get? other := by
  obtain ⟨scopes, base⟩ := env
  cases scopes with
  | nil =>
    simp only [get?, set, modifyInner, frames, List.nil_append, lookup_cons, Frame.find?_insert]
    split <;> rfl
  | cons f fs =>
    simp only [get?, set, modifyInner, frames, List.cons_append, lookup_cons, Frame.find?_insert]
    split <;> rfl

/-- An assignment stays in the innermost frame. -/
theorem tail_frames_set (env : Environment) (name value : String) :
    (env.set name value).frames.tail = env.frames.tail := by
  obtain ⟨scopes, base⟩ := env
  cases scopes <;> rfl

end Environment

/-! ## From one line to the other -/

/-- The machine after a line of one command that ended with status 0 and left the variables as given. -/
def Machine.ran (m : Machine) (line : String) (env : Environment) : Machine :=
  ⟨{ m.state with env := env, commandCount := m.state.commandCount + 1, status := 0 },
    { (m.pass line.utf8ByteSize).host with started := m.host.started + 1 }⟩

section

variable (e : Engine) (stdin : String) {m : Machine} {name value : String}

/-- A quoted assignment sets the variable to what stands after the equals sign. -/
theorem Engine.runTask_set (hname : isIdentifier name = true) (hvalue : value ≠ "")
    (hplain : ∀ c ∈ value.toList, c ≠ '"' ∧ c ≠ '%' ∧ c ≠ '\n') (hloops : m.state.loops = [])
    (hbreak : m.host.interrupted = false) (hbudget : m.state.commandCount < e.limits.commands) :
    let line := "set \"" ++ (name ++ "=" ++ value) ++ "\""
    e.runTask (.line line) stdin m = some (.done ⟨"", "", 0⟩, m.ran line (m.state.env.set name value)) := by
  intro line
  obtain ⟨c, cs, hchars, -, hsigns⟩ := isIdentifier_cons hname
  have hnonempty : name ≠ "" := by
    rintro rfl
    cases hchars
  have hequals : '=' ∉ name.toList := fun hmem => hsigns '=' hmem (by decide)
  have hbody : ∀ d ∈ (name ++ "=" ++ value).toList, d ≠ '"' ∧ d ≠ '%' ∧ d ≠ '\n' := by
    intro d hd
    simp only [String.toList_append, List.mem_append] at hd
    obtain (hd | hd) | hd := hd
    · have hd := hsigns d hd
      simp only [signs, List.mem_cons, not_or] at hd
      simp [hd]
    · obtain rfl : d = '=' := by simpa using hd
      decide
    · exact hplain d hd
  obtain ⟨t, u, htokens, ht, hu⟩ := Expansion.expand_set m.host.files m.host.now m.state hbody
  obtain ⟨again, hrun⟩ :=
    e.runTask_simple stdin htokens (Parser.ofTokens?_set ht hu) rfl (by simp) hloops hbreak hbudget
  have hset := Builtin.runSet_quoted hnonempty hequals hvalue m.count.noteStart.state stdin
  have hecho : Builtin.echoText? "set" = none := rfl
  have hfind (later : Machine) : Resolution.find later.host.files later.state.env later.state.cwd "set" =
      .builtin .set := by
    have hplain : dequote "set" = "set" := by decide +kernel
    have hbuiltin : Builtin.ofName? "set" = some .set := by decide +kernel
    rw [Resolution.find, hplain, hbuiltin]
    rfl
  rw [hrun, Engine.dispatch, hecho, hfind]
  simp only [Engine.runBuiltin]
  rw [show ((m.pass line.utf8ByteSize).count.noteStart).state = m.count.noteStart.state from rfl, hset]
  rfl

/-- A reference after `ECHO.` prints the value of the variable. -/
theorem Engine.runTask_echo (hname : isIdentifier name = true) (hvalue : m.state.env.get? name = some value)
    (hloops : m.state.loops = []) (hbreak : m.host.interrupted = false)
    (hbudget : m.state.commandCount < e.limits.commands) :
    let line := "echo.%" ++ name ++ "%"
    e.runTask (.line line) stdin m = some (.done ⟨value ++ "\n", "", 0⟩, m.ran line m.state.env) := by
  intro line
  obtain ⟨t, htokens, ht⟩ := Expansion.expand_echo m.host.files m.host.now m.state hname hvalue
  obtain ⟨again, hrun⟩ := e.runTask_simple stdin htokens (Parser.ofTokens?_echo ht) rfl
    (by simp [String.ext_iff]) hloops hbreak hbudget
  rw [hrun, Engine.dispatch, Builtin.echoText?_echo]
  dsimp only
  rw [String.append_empty]
  rfl

end

/-- **A value comes back as it was set.** Outside loops, a variable that is set to a quoted text and printed after
`ECHO.` gives that text, whatever signs are in it. The assignment touches nothing but the variable in the
innermost frame, the count of commands and the status. -/
theorem Engine.set_then_echo (e : Engine) (m : Machine) (name value stdin stdin' : String)
    (hname : isIdentifier name = true) (hvalue : value ≠ "")
    (hplain : ∀ c ∈ value.toList, c ≠ '"' ∧ c ≠ '%' ∧ c ≠ '\n') (hloops : m.state.loops = [])
    (hbreak : m.host.interrupted = false) (hbudget : m.state.commandCount + 2 ≤ e.limits.commands) :
    let set := "set \"" ++ (name ++ "=" ++ value) ++ "\""
    let echo := "echo.%" ++ name ++ "%"
    let after := m.ran set (m.state.env.set name value)
    e.runTask (.line set) stdin m = some (.done ⟨"", "", 0⟩, after) ∧
      e.runTask (.line echo) stdin' after = some (.done ⟨value ++ "\n", "", 0⟩, after.ran echo after.state.env) ∧
      (∀ other, Text.upper other ≠ Text.upper name →
        after.state.env.get? other = m.state.env.get? other) ∧
      after.state.env.frames.tail = m.state.env.frames.tail := by
  intro set echo after
  have hget (other : String) := m.state.env.get?_set name value other
  have hafter : after.state.commandCount < e.limits.commands := hbudget
  refine ⟨e.runTask_set stdin hname hvalue hplain hloops hbreak (Nat.lt_of_succ_lt hbudget),
    e.runTask_echo stdin' hname ((hget name).trans (if_pos rfl)) hloops hbreak hafter, ?_,
    m.state.env.tail_frames_set name value⟩
  intro other hother
  exact (hget other).trans (if_neg hother)

/-- In a script, with every sign that joins, redirects, escapes or encloses. -/
theorem Engine.set_then_echo_signs :
    ∃ after, Engine.bare.runTask (.line "set \"X= a & b|c>d<(^e)=@ \"") "" .inScript =
        some (.done ⟨"", "", 0⟩, after) ∧
      ∃ last, Engine.bare.runTask (.line "echo.%X%") "" after =
        some (.done ⟨" a & b|c>d<(^e)=@ \n", "", 0⟩, last) := by
  obtain ⟨hset, hecho, -⟩ := Engine.set_then_echo .bare .inScript "X" " a & b|c>d<(^e)=@ " "" ""
    (by decide) (by decide) (by simp) rfl rfl (by decide)
  exact ⟨_, hset, _, hecho⟩

end BatchShell
