import BatchShell.Proofs.Script.Blocks
import Mathlib.Data.List.DropRight

/-!
# Loading loses nothing

A script is loaded from a source text in two steps. The source is divided into physical lines (`Spelled`), and these
into groups, one for each logical line. `Joined` says how the text of a command comes out of its group: a line follows
at once where a caret was taken off, behind a line break while a block is open, and behind a blank as the `ELSE` of an
`IF`. Only a label, a comment or a blank line inside an open block adds nothing. Any other logical line is one
physical line as it stands (`ScriptLine.Holds`).

What a line is, a label, a comment, blank or a command, shows in the first characters behind its white space
(`LineKind.ofText_eq_iff`). `grouped_assemble` gives the groups and the numbers of their first lines, and
`Script.load_loses_nothing` adds where labels are found and which of them are defined again.
-/
namespace BatchShell

open Text

/-! ## Physical lines -/

/-- A line, which has no line feed, and what ends it. A carriage return in front of the end belongs to the end. -/
def EndsIn (line stop : String) : Prop :=
  '\n' ∉ line.toList ∧ (line.toList.getLast? = some '\r' → '\r' ∈ stop.toList)

/-- The lines with their ends are the source. Every line ends in a line feed, perhaps after a carriage return; the
last one need not. -/
inductive Spelled : List String → String → Prop where
  | last {line stop : String} (hline : EndsIn line stop) (hstop : stop ∈ ["", "\r", "\n", "\r\n"]) :
    Spelled [line] (line ++ stop)
  | line {line stop source : String} {lines : List String} (hline : EndsIn line stop)
    (hstop : stop ∈ ["\n", "\r\n"]) (rest : Spelled lines source) :
    Spelled (line :: lines) (line ++ stop ++ source)

/-- A text without the carriage return at its end. -/
def withoutReturn (text : String) : String := (dropSuffix? "\r" text).getD text

theorem withoutReturn_eq (text : String) :
    (text = withoutReturn text ∧ text.toList.getLast? ≠ some '\r') ∨ text = withoutReturn text ++ "\r" := by
  unfold withoutReturn dropSuffix?
  cases hback : text.toList.reverse with
  | nil => simp_all [afterPrefix?]
  | cons c cs =>
    have htext : text.toList = cs.reverse ++ [c] := by
      rw [← List.reverse_reverse text.toList, hback, List.reverse_cons]
    by_cases hc : c = '\r'
    · right
      rw [← String.toList_inj, htext]
      simp [afterPrefix?, hc]
    · left
      simp [afterPrefix?, Ne.symm hc, htext, hc]

/-- A piece of the source without line feeds, and the line that it is with its end. -/
theorem exists_endsIn {piece : List Char} (hpiece : '\n' ∉ piece) (stop : String) :
    ∃ stop', String.ofList piece ++ stop = withoutReturn (String.ofList piece) ++ stop' ∧
      EndsIn (withoutReturn (String.ofList piece)) stop' ∧ (stop' = stop ∨ stop' = "\r" ++ stop) := by
  obtain ⟨heq, hreturn⟩ | heq := withoutReturn_eq (String.ofList piece)
  · rw [← heq]
    exact ⟨stop, rfl, ⟨by simpa using hpiece, fun h => absurd h hreturn⟩, .inl rfl⟩
  · refine ⟨"\r" ++ stop, by rw [← String.append_assoc, ← heq], ⟨fun hmem => hpiece ?_, fun _ => by simp⟩, .inr rfl⟩
    rw [← String.toList_ofList (l := piece), heq, String.toList_append]
    exact List.mem_append_left _ hmem

/-- The pieces between line feeds, the last one left out if it is empty because the text ends in a line feed. -/
def wholePieces (piece cs : List Char) : List (List Char) :=
  let parts := piecesAux (· == '\n') piece cs
  if cs.getLast? == some '\n' then parts.dropLast else parts

theorem physicalLines_eq (source : String) :
    physicalLines source = (wholePieces [] source.toList).map fun cs => withoutReturn (String.ofList cs) := by
  unfold physicalLines wholePieces pieces
  split <;> simp [withoutReturn, List.map_dropLast, Function.comp_def]

theorem piecesAux_ne_nil (p : Char → Bool) (piece cs : List Char) : piecesAux p piece cs ≠ [] := by
  fun_induction piecesAux p piece cs <;> simp_all

/-- The lines of what is left of a source, `piece` being what was read of the first one. -/
theorem spelled_wholePieces (piece : List Char) (hpiece : '\n' ∉ piece) (cs : List Char) :
    Spelled ((wholePieces piece cs).map fun cs => withoutReturn (String.ofList cs))
      (String.ofList (piece.reverse ++ cs)) := by
  have hline : '\n' ∉ piece.reverse := by simpa using hpiece
  induction cs generalizing piece with
  | nil =>
    obtain ⟨stop, heq, hends, hstop⟩ := exists_endsIn hline ""
    have hspelled : Spelled [_] (_ ++ stop) := .last hends (by obtain rfl | rfl := hstop <;> simp)
    rw [← heq] at hspelled
    simpa [wholePieces, piecesAux] using hspelled
  | cons c cs ih =>
    by_cases hc : c = '\n'
    · subst hc
      obtain ⟨stop, heq, hends, hstop⟩ := exists_endsIn hline "\n"
      cases cs with
      | nil =>
        have hspelled : Spelled [_] (_ ++ stop) := .last hends (by obtain rfl | rfl := hstop <;> simp)
        rw [← heq] at hspelled
        simpa [wholePieces, piecesAux] using hspelled
      | cons d ds =>
        have hwhole : wholePieces piece ('\n' :: d :: ds) = piece.reverse :: wholePieces [] (d :: ds) := by
          unfold wholePieces
          rw [List.getLast?_cons_cons]
          split
          · exact List.dropLast_cons_of_ne_nil (piecesAux_ne_nil _ _ _)
          · rfl
        have hspelled : Spelled _ (_ ++ stop ++ _) :=
          .line hends (by obtain rfl | rfl := hstop <;> simp) (ih [] (by simp) (by simp))
        rw [← heq] at hspelled
        rw [hwhole]
        simpa [String.append_assoc] using hspelled
    · have hwhole : wholePieces piece (c :: cs) = wholePieces (c :: piece) cs := by
        have hparts : piecesAux (· == '\n') piece (c :: cs) = piecesAux (· == '\n') (c :: piece) cs := by
          simp [piecesAux, hc]
        cases cs with
        | nil => simp [wholePieces, hparts, hc]
        | cons d ds => simp only [wholePieces, hparts, List.getLast?_cons_cons]
      have hmore : '\n' ∉ c :: piece := by simp [hpiece, Ne.symm hc]
      rw [hwhole]
      simpa using ih _ hmore (by simpa only [List.mem_reverse] using hmore)

/-- The physical lines with their ends are the source. -/
theorem spelled_physicalLines (source : String) : Spelled (physicalLines source) source := by
  rw [physicalLines_eq]
  simpa using spelled_wholePieces [] (by simp) source.toList

/-! ## The kind of a line -/

/-- What a line of a kind has behind the white space at its front. -/
def LineKind.Starts : LineKind → List Char → Prop
  | .blank, cs => cs = []
  | .comment, cs => ∃ rest, cs = ':' :: ':' :: rest
  | .label name, cs => ∃ rest, cs = ':' :: rest ∧ rest.head? ≠ some ':' ∧
      name = upper (String.ofList (rest.takeWhile fun c => !endsLabel c))
  | .command, cs => ∃ c rest, cs = c :: rest ∧ isBlank c = false ∧ c ≠ ':'

theorem trimStart_trimStart (text : String) : trimStart (trimStart text) = trimStart text := by
  simp only [trimStart, dropStart, String.toList_ofList, List.dropWhile_idempotent]

namespace LineKind

variable {kind kind' : LineKind} {cs : List Char}

theorem Starts.head (h : kind.Starts cs) : ∀ c ∈ cs.head?, isBlank c = false := by
  have hcolon : isBlank ':' = false := by decide
  cases kind with
  | blank =>
    obtain rfl : cs = [] := h
    simp
  | comment =>
    obtain ⟨rest, rfl⟩ := h
    simpa using hcolon
  | label name =>
    obtain ⟨rest, rfl, -⟩ := h
    simpa using hcolon
  | command =>
    obtain ⟨c, rest, rfl, hblank, -⟩ := h
    simpa using hblank

/-- No line starts as lines of two kinds do. -/
theorem Starts.unique (h : kind.Starts cs) (h' : kind'.Starts cs) : kind = kind' := by
  cases kind <;> cases kind' <;> simp only [Starts] at h h' <;> grind

theorem starts_ofText (text : String) : (ofText text).Starts (text.toList.dropWhile isBlank) := by
  have hstart : (trimStart text).toList = text.toList.dropWhile isBlank := by simp [trimStart, dropStart]
  unfold ofText
  dsimp only
  rw [← hstart]
  split
  · assumption
  · rename_i rest hcomment
    exact ⟨rest, hcomment⟩
  · rename_i rest hnext hlabel
    refine ⟨rest, hlabel, fun hmore => ?_, ?_⟩
    · obtain ⟨more, rfl⟩ := List.head?_eq_some_iff.mp hmore
      exact hnext more rfl
    · simp [normalizeLabel, trimStart_trimStart, hlabel]
  · rename_i hblank hcomment hlabel
    cases hcs : (trimStart text).toList with
    | nil => exact absurd hcs hblank
    | cons c rest =>
      have hfirst := List.head?_dropWhile_not isBlank text.toList
      rw [← hstart, hcs] at hfirst
      exact ⟨c, rest, rfl, hfirst, fun hcolon => hlabel rest (hcolon ▸ hcs)⟩

/-- The kind of a line shows behind the white space at its front. -/
theorem ofText_eq_iff (text : String) (kind : LineKind) : ofText text = kind ↔
    ∃ gap cs, text.toList = gap ++ cs ∧ (∀ c ∈ gap, isBlank c = true) ∧ kind.Starts cs := by
  constructor
  · rintro rfl
    refine ⟨text.toList.takeWhile isBlank, _, List.takeWhile_append_dropWhile.symm, fun c hc => ?_, starts_ofText text⟩
    exact List.mem_takeWhile_imp hc
  · rintro ⟨gap, cs, htext, hgap, hcs⟩
    have hfound := starts_ofText text
    have hdrop : cs.dropWhile isBlank = cs := by
      cases cs with
      | nil => rfl
      | cons c cs => rw [List.dropWhile_cons_of_neg (by simpa using hcs.head c rfl)]
    rw [htext, List.dropWhile_append_of_pos hgap, hdrop] at hfound
    exact hfound.unique hcs

end LineKind

/-! ## The text of a command -/

theorem getLast?_of_endsInCaret (quoted escaped : Bool) (cs : List Char) (h : endsInCaret quoted escaped cs = true) :
    (escaped = true ∧ cs = []) ∨ cs.getLast? = some '^' := by
  have hlater (c : Char) {cs : List Char} (hlast : (false = true ∧ cs = []) ∨ cs.getLast? = some '^') :
      (c :: cs).getLast? = some '^' := by
    obtain ⟨hnone, -⟩ | hlast := hlast
    · cases hnone
    · simp [List.getLast?_cons, hlast]
  fun_induction endsInCaret quoted escaped cs with
  | case1 => exact .inl ⟨h, rfl⟩
  | case2 quoted c cs ih => exact .inr (hlater c (ih h))
  | case3 quoted c cs hc ih => exact .inr (hlater c (ih h))
  | case4 quoted c cs hc hcaret ih =>
    obtain ⟨-, rfl⟩ | hlast := ih h
    · simp_all
    · exact .inr (hlater c (.inr hlast))
  | case5 quoted c cs hc hcaret ih => exact .inr (hlater c (ih h))

/-- A line goes on in the next one because of a caret at its end. -/
theorem exists_of_continues {text : String} (h : continues text = true) : ∃ start, text = start ++ "^" := by
  obtain ⟨hnone, -⟩ | hlast := getLast?_of_endsInCaret false false text.toList h
  · cases hnone
  · obtain ⟨start, hstart⟩ := List.getLast?_eq_some_iff.mp hlast
    exact ⟨String.ofList start, by rw [← String.toList_inj, hstart]; simp⟩

/-- How the text of a command grows by physical lines, up to the whole: the rules are tried in this order. -/
inductive Joined (isRemark : Bool) : String → List String → String → Prop where
  | whole {text : String} : Joined isRemark text [] text
  /-- The caret is taken off, and the line follows at once. -/
  | caret {start next whole : String} {more : List String} (goesOn : continues (start ++ "^") = true)
    (rest : Joined isRemark (start ++ next) more whole) : Joined isRemark (start ++ "^") (next :: more) whole
  /-- A command inside an open block follows behind a line break. -/
  | inBlock {text next whole : String} {more : List String} (ends : continues text = false)
    (isOpen : isRemark = false ∧ 0 < openBlocks text) (kind : LineKind.ofText next = .command)
    (rest : Joined isRemark (text ++ "\n" ++ next) more whole) : Joined isRemark text (next :: more) whole
  /-- A label, a comment or a blank line inside an open block is passed over. -/
  | dropped {text next whole : String} {more : List String} (ends : continues text = false)
    (isOpen : isRemark = false ∧ 0 < openBlocks text) (kind : LineKind.ofText next ≠ .command)
    (rest : Joined isRemark text more whole) : Joined isRemark text (next :: more) whole
  /-- The `ELSE` of an `IF` follows behind one blank, without the white space in front of it. -/
  | otherwise {text next whole : String} {more : List String} (ends : continues text = false)
    (closed : isRemark = true ∨ openBlocks text = 0)
    (conditional : firstWord text = "IF" ∧ (trimEnd text).toList.getLast? = some ')')
    (isElse : startsWithElse next = true) (rest : Joined isRemark (text ++ " " ++ trimStart next) more whole) :
    Joined isRemark text (next :: more) whole

/-- What the loader has found out when it adds a line. -/
theorem Extension.of?_eq_some {isRemark : Bool} {text next : String} {how : Extension}
    (h : of? isRemark text next = some how) :
    match how with
    | .caret => continues text = true
    | .block => continues text = false ∧ isRemark = false ∧ 0 < openBlocks text
    | .otherwise => continues text = false ∧ (isRemark = true ∨ openBlocks text = 0) ∧
        (firstWord text = "IF" ∧ (trimEnd text).toList.getLast? = some ')') ∧ startsWithElse next = true := by
  unfold of? at h
  split at h
  · rename_i hcaret
    cases h
    exact hcaret
  · rename_i hends
    have hends := Bool.eq_false_iff.mpr hends
    split at h
    · rename_i hopen
      cases h
      simpa [hends] using hopen
    · rename_i hclosed
      split at h
      · rename_i helse
        cases h
        have hclosed : isRemark = true ∨ openBlocks text = 0 := by
          cases isRemark <;> simp_all
        simp only [Bool.and_eq_true, beq_iff_eq] at helse
        exact ⟨hends, hclosed, helse.1, helse.2⟩
      · cases h

/-- The lines that the loader adds are joined by the rules. -/
theorem Grows.joined {isRemark : Bool} {text text' : String} {rest rest' : List String}
    (h : Grows isRemark text rest text' rest') : ∃ more, rest = more ++ rest' ∧ Joined isRemark text more text' := by
  induction h with
  | done => exact ⟨[], rfl, .whole⟩
  | @step text next rest how text' rest' hhow _ ih =>
    obtain ⟨more, rfl, hjoined⟩ := ih
    refine ⟨next :: more, rfl, ?_⟩
    have hfound := Extension.of?_eq_some hhow
    cases how with
    | caret =>
      obtain ⟨start, rfl⟩ := exists_of_continues hfound
      have hgrow : Extension.grow (start ++ "^") next .caret = start ++ next := by simp [Extension.grow]
      rw [hgrow] at hjoined
      exact .caret hfound hjoined
    | block =>
      by_cases hkind : LineKind.ofText next = .command
      · simp only [Extension.grow, hkind] at hjoined
        exact .inBlock hfound.1 hfound.2 hkind hjoined
      · have hgrow : Extension.grow text next .block = text := by
          rw [Extension.grow]
          split
          · rename_i hcommand
            exact absurd hcommand hkind
          · rfl
        rw [hgrow] at hjoined
        exact .dropped hfound.1 hfound.2 hkind hjoined
    | otherwise => exact .otherwise hfound.1 hfound.2.1 hfound.2.2.1 hfound.2.2.2 hjoined

/-! ## Groups of physical lines -/

/-- The logical line stands for a group of physical lines, with `later` behind it. A command grew as far as it
could; everything else is one line as it is. -/
def ScriptLine.Holds (l : ScriptLine) (group later : List String) : Prop :=
  match l.kind with
  | .command => ∃ first more, group = first :: more ∧ LineKind.ofText first = .command ∧
      Joined (firstWord first == "REM") first more l.text ∧
      ∀ next ∈ later.head?, Extension.of? (firstWord first == "REM") l.text next = none
  | kind => group = [l.text] ∧ LineKind.ofText l.text = kind

/-- Logical lines stand for consecutive groups of physical lines, the first of which has number `number`. Each has the
number of the first line of its group. -/
inductive Grouped : Nat → List ScriptLine → List String → Prop where
  | none {number : Nat} : Grouped number [] []
  | line {number : Nat} {l : ScriptLine} {ls : List ScriptLine} {group later : List String} (isAt : l.number = number)
    (holds : l.Holds group later) (rest : Grouped (number + group.length) ls later) :
    Grouped number (l :: ls) (group ++ later)

theorem ScriptLine.Holds.length_pos {l : ScriptLine} {group later : List String} (h : l.Holds group later) :
    0 < group.length := by
  unfold ScriptLine.Holds at h
  split at h
  · obtain ⟨first, more, rfl, -⟩ := h
    exact Nat.succ_pos _
  · rw [h.1]
    exact Nat.one_pos

theorem grouped_assemble (number : Nat) (lines : List String) : Grouped number (assemble number lines) lines := by
  fun_induction assemble number lines with
  | case1 => exact .none
  | case2 number first rest hfirst extended ih =>
    obtain ⟨hgrows, hstop⟩ := extendLine_grows (firstWord first == "REM") first rest
    obtain ⟨more, hrest, hjoined⟩ := hgrows.joined
    have hlines : first :: rest = (first :: more) ++ extended.2 := congrArg (first :: ·) hrest
    have hlength : number + 1 + (rest.length - extended.2.length) = number + (first :: more).length := by
      have hsum : rest.length = more.length + extended.2.length := by
        rw [← List.length_append]
        exact congrArg _ hrest
      rw [List.length_cons]
      omega
    rw [hlength] at ih ⊢
    rw [hlines]
    refine .line rfl ⟨first, more, rfl, hfirst, hjoined, fun next hnext => ?_⟩ ih
    obtain ⟨tail, htail⟩ := List.head?_eq_some_iff.mp hnext
    exact hstop next tail htail
  | case3 number first rest hfirst ih =>
    change Grouped number _ ([first] ++ rest)
    refine .line rfl ?_ ih
    unfold ScriptLine.Holds
    split
    · rename_i hcommand
      exact absurd hcommand hfirst
    · exact ⟨rfl, rfl⟩

theorem Grouped.le_number {number : Nat} {ls : List ScriptLine} {lines : List String} (h : Grouped number ls lines) :
    ∀ l ∈ ls, number ≤ l.number := by
  induction h with
  | none => simp
  | line isAt holds _ ih =>
    refine List.forall_mem_cons.mpr ⟨isAt.ge, fun l hl => ?_⟩
    exact Nat.le_trans (Nat.le_add_right _ _) (ih l hl)

/-- The numbers of logical lines grow, because no group is empty. -/
theorem Grouped.pairwise_number {number : Nat} {ls : List ScriptLine} {lines : List String}
    (h : Grouped number ls lines) : ls.Pairwise fun l l' => l.number < l'.number := by
  induction h with
  | none => exact .nil
  | line isAt holds rest ih =>
    refine .cons (fun l hl => ?_) ih
    have hnumber := rest.le_number l hl
    have hgroup := holds.length_pos
    omega

/-! ## Labels -/

/-- A line that is a label carries the name that its text has. -/
theorem eq_normalizeLabel_of_ofText {text name : String} (h : LineKind.ofText text = .label name) :
    name = normalizeLabel text := by
  have htrim : normalizeLabel (trimStart text) = normalizeLabel text := by
    simp only [normalizeLabel, trimStart_trimStart]
  unfold LineKind.ofText at h
  dsimp only at h
  split at h
  · cases h
  · cases h
  · cases h
    exact htrim
  · cases h

theorem Grouped.label_name {number : Nat} {ls : List ScriptLine} {lines : List String} (h : Grouped number ls lines) :
    ∀ l ∈ ls, ∀ name, l.kind = .label name → name = normalizeLabel l.text := by
  induction h with
  | none => simp
  | @line number l ls group later isAt holds _ ih =>
    refine List.forall_mem_cons.mpr ⟨fun name hname => ?_, ih⟩
    simp only [ScriptLine.Holds, hname] at holds
    exact eq_normalizeLabel_of_ofText holds.2

/-- The name of a label that one of the earlier lines carries too. -/
def ScriptLine.repeated? (l : ScriptLine) (earlier : List ScriptLine) : Option String :=
  match l.kind with
  | .label name => if earlier.any (·.kind == .label name) then some name else none
  | _ => none

theorem repeatedLabels_eq (seen : List String) (earlier ls : List ScriptLine)
    (hseen : ∀ name, seen.contains name = earlier.any (·.kind == .label name)) :
    Script.repeatedLabels seen ls =
      (ls.zipIdx earlier.length).filterMap fun (entry : ScriptLine × Nat) =>
        entry.1.repeated? ((earlier ++ ls).take entry.2) := by
  induction ls generalizing seen earlier with
  | nil => rfl
  | cons l ls ih =>
    have hlines : earlier ++ l :: ls = (earlier ++ [l]) ++ ls := by simp
    have hlater (more : List String)
        (hmore : ∀ name, more.contains name = (earlier ++ [l]).any (·.kind == .label name)) :
        Script.repeatedLabels more ls = (ls.zipIdx (earlier.length + 1)).filterMap
          fun entry => entry.1.repeated? ((earlier ++ l :: ls).take entry.2) := by
      have hrest := ih more (earlier ++ [l]) hmore
      rwa [List.length_append, List.length_singleton, ← hlines] at hrest
    have hhere : (earlier ++ l :: ls).take earlier.length = earlier := by simp
    rw [List.zipIdx_cons, List.filterMap_cons, Script.repeatedLabels]
    simp only [hhere]
    rw [ScriptLine.repeated?]
    cases hkind : l.kind with
    | label name =>
      simp only [← hseen]
      cases hold : seen.contains name with
      | true =>
        have hmore (n : String) : seen.contains n = (earlier ++ [l]).any (·.kind == .label n) := by
          rw [List.any_append, ← hseen]
          by_cases hn : name = n
          · rw [← hn, hold, Bool.true_or]
          · simp [hkind, hn]
        simp only [if_true, hlater seen hmore]
      | false =>
        have hmore (n : String) : (name :: seen).contains n = (earlier ++ [l]).any (·.kind == .label n) := by
          rw [List.any_append, ← hseen, List.contains_cons, Bool.or_comm]
          by_cases hn : name = n
          · simp [hkind, hn]
          · have hother : (LineKind.label name == LineKind.label n) = false := beq_false_of_ne (by simpa using hn)
            simp [hkind, hother, beq_false_of_ne (Ne.symm hn)]
        simp only [Bool.false_eq_true, if_false, hlater (name :: seen) hmore]
    | _ =>
      have hmore (n : String) : seen.contains n = (earlier ++ [l]).any (·.kind == .label n) := by
        rw [List.any_append, ← hseen, Bool.eq_iff_iff]
        simp [hkind]
      simp only [hlater seen hmore]

/-- **Loading a script loses and invents nothing.** The physical lines with their ends are the source. The logical
lines stand for consecutive groups of them, numbered from 1: a label, a comment or a blank line for one line, and a
command for the lines that its text was joined from, as far as the rules go. What a line is shows behind the white
space at its front. So the numbers grow. A label is found at the first line that carries its name, and the labels
defined again are those whose name an earlier line carries, in order. -/
theorem Script.load_loses_nothing (name source : String) :
    let script := Script.load name source
    Spelled (physicalLines source) source ∧ Grouped 1 script.lines (physicalLines source) ∧
      (∀ text kind, LineKind.ofText text = kind ↔
        ∃ gap cs, text.toList = gap ++ cs ∧ (∀ c ∈ gap, isBlank c = true) ∧ kind.Starts cs) ∧
      script.lines.Pairwise (fun l l' => l.number < l'.number) ∧
      (∀ l ∈ script.lines, ∀ n, l.kind = .label n → n = normalizeLabel l.text) ∧
      (∀ label i, script.findLabel? label = some i ↔
        (∃ l, script.lines[i]? = some l ∧ l.kind = .label (normalizeLabel label)) ∧
          ∀ j l, j < i → script.lines[j]? = some l → l.kind ≠ .label (normalizeLabel label)) ∧
      (∀ label, script.findLabel? label = none ↔ ∀ l ∈ script.lines, l.kind ≠ .label (normalizeLabel label)) ∧
      script.duplicateLabels =
        script.lines.zipIdx.filterMap fun (entry : ScriptLine × Nat) =>
          entry.1.repeated? (script.lines.take entry.2) := by
  intro script
  have hgrouped : Grouped 1 script.lines (physicalLines source) := grouped_assemble 1 _
  refine ⟨spelled_physicalLines source, hgrouped, LineKind.ofText_eq_iff, hgrouped.pairwise_number,
    hgrouped.label_name, fun label i => ?_, fun label => ?_, ?_⟩
  · rw [Script.findLabel?, List.findIdx?_eq_some_iff_getElem]
    constructor
    · rintro ⟨hi, hkind, hfirst⟩
      refine ⟨⟨_, List.getElem?_eq_getElem hi, by simpa using hkind⟩, fun j l hj hl => ?_⟩
      obtain ⟨hlt, rfl⟩ := List.getElem?_eq_some_iff.mp hl
      simpa using hfirst j hj
    · rintro ⟨⟨l, hl, hkind⟩, hfirst⟩
      obtain ⟨hi, rfl⟩ := List.getElem?_eq_some_iff.mp hl
      refine ⟨hi, by simpa using hkind, fun j hj => ?_⟩
      simpa using hfirst j _ hj (List.getElem?_eq_getElem (Nat.lt_trans hj hi))
  · simp [Script.findLabel?, List.findIdx?_eq_none_iff]
  · exact repeatedLabels_eq [] [] script.lines (by simp)

/-- A label, a line that a caret joins to the next, a blank line, and a block with a comment in it that goes on with an
`ELSE`. -/
theorem Script.load_loses_nothing_joined :
    let source := ":start\r\necho a^\nb\n\nif 1==1 (\n:: note\necho c\n)\nelse echo d"
    let lines : List ScriptLine := [⟨":start", 1, .label "START"⟩, ⟨"echo ab", 2, .command⟩, ⟨"", 4, .blank⟩,
      ⟨"if 1==1 (\necho c\n) else echo d", 5, .command⟩]
    (Script.load "t.bat" source).lines = lines ∧ Grouped 1 lines [":start", "echo a^", "b", "", "if 1==1 (", ":: note",
      "echo c", ")", "else echo d"] ∧ (Script.load "t.bat" source).duplicateLabels = [] := by
  intro source lines
  have hlines : (Script.load "t.bat" source).lines = lines := by decide +kernel
  have hphysical : physicalLines source = [":start", "echo a^", "b", "", "if 1==1 (", ":: note", "echo c", ")",
      "else echo d"] := by decide +kernel
  obtain ⟨-, hgrouped, -, -, -, -, -, hrepeated⟩ := Script.load_loses_nothing "t.bat" source
  rw [hlines, hphysical] at hgrouped
  refine ⟨hlines, hgrouped, hrepeated.trans ?_⟩
  rw [hlines]
  decide +kernel

end BatchShell
