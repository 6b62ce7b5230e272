import BatchShell.Proofs.Parser.Grammar
import BatchShell.Proofs.Token.Words

/-!
# Conditions and loop heads as they are written

What can be written for a condition (`IfWritten`) and for a loop from `FOR` to `DO` (`ForWritten`), as words with white
space between them, and that it is read back before anything that does not go on with its last word.

A comparison by `==` is written with white space on both sides of the sign, on one side or on none. Where the sign is
part of the left word, the quotes of that word have to be closed, since a sign inside quotes is text. Keywords are
written in any case, and `NOT` and `/I` in any order.

* `ifHead_written`: a condition is read back.
* `loopHead_written`: the head of a loop is read back, with the text of its set and the items in it.
-/
namespace BatchShell.Parser

/-! ## Words -/

/-- The tokens are one word: a token and those glued to it. -/
def SaysWord (run : List Token) (w : String) : Prop :=
  ∃ t us, run = t :: us ∧ t.isWord = true ∧ (∀ u ∈ us, isGlued u = true) ∧ w = String.join (run.map Token.text)

/-- The tokens are words with white space before each. -/
inductive Words : List Token → List String → Prop where
  | nil : Words [] []
  | cons {run w ts ws} (hword : SaysWord run w) (hspace : ∀ t us, run = t :: us → t.leading ≠ "")
      (hmore : Words ts ws) : Words (run ++ ts) (w :: ws)

theorem glued_of_all {us : List Token} (h : ∀ u ∈ us, isGlued u = true) :
    (glued us).1 = String.join (us.map Token.text) := by
  have htake : us.takeWhile isGlued = us := List.takeWhile_eq_self_iff.mpr h
  rw [glued_text, htake]
  generalize us.map Token.text = texts
  induction texts with
  | nil => rfl
  | cons s texts ih => rw [List.foldr_cons, ih, String.join_cons]

section

variable {run rest ts : List Token} {w : String}

/-- A word is read with all that is glued to it. -/
theorem SaysWord.word? (h : SaysWord run w) (hrest : Unglued rest) :
    ∃ start hlt, word? (run ++ rest) = some (⟨w, start⟩, ⟨rest, hlt⟩) := by
  obtain ⟨t, us, rfl, ht, hus, rfl⟩ := h
  obtain ⟨hlt, hword⟩ := word?_cons ht (us ++ rest)
  obtain ⟨htext, hdrop⟩ := glued_append hrest us
  rw [List.dropWhile_eq_nil_iff.mpr hus, List.nil_append] at hdrop
  simp only [htext, hdrop, glued_of_all hus] at hword
  have hshort : rest.length < (t :: us ++ rest).length := by
    rw [List.length_append, List.length_cons]
    omega
  exact ⟨t.start, hshort, hword.trans (by rw [List.map_cons, String.join_cons])⟩

theorem SaysWord.expectWord (h : SaysWord run w) (hrest : Unglued rest) (lineEnd : Nat) (what : Expected) :
    ∃ start hlt, expectWord lineEnd what (run ++ rest) = .ok (⟨w, start⟩, ⟨rest, hlt⟩) := by
  obtain ⟨start, hlt, hword⟩ := h.word? hrest
  exact ⟨start, hlt, by rw [Parser.expectWord, hword]⟩

theorem SaysWord.peekKeyword? (h : SaysWord run w) (hrest : Unglued rest) :
    peekKeyword? (run ++ rest) = some (w.map Char.toUpper) := by
  obtain ⟨start, hlt, hword⟩ := h.word? hrest
  rw [Parser.peekKeyword?, peekWord?, hword]
  rfl

/-- A word after white space is not glued to what stands before it. -/
theorem SaysWord.unglued (h : SaysWord run w) (hspace : ∀ t us, run = t :: us → t.leading ≠ "") (rest : List Token) :
    Unglued (run ++ rest) := by
  obtain ⟨t, us, rfl, -⟩ := h
  intro u vs heq
  cases heq
  simp [isGlued, hspace t us rfl]

theorem Words.unglued {ws : List String} (h : Words ts ws) (hrest : Unglued rest) : Unglued (ts ++ rest) := by
  cases h with
  | nil => exact hrest
  | cons hword hspace _ =>
    rw [List.append_assoc]
    exact hword.unglued hspace _

/-- The first of some words, before the others. -/
theorem Words.head {ws : List String} (h : Words ts (w :: ws)) (hrest : Unglued rest) :
    ∃ run us, ts ++ rest = run ++ (us ++ rest) ∧ SaysWord run w ∧ Words us ws ∧ Unglued (us ++ rest) := by
  cases h with
  | cons hword _ hmore => exact ⟨_, _, List.append_assoc _ _ _, hword, hmore, hmore.unglued hrest⟩

theorem Words.single (h : Words ts [w]) : SaysWord ts w := by
  cases h with
  | cons hword _ hmore =>
    cases hmore
    rwa [List.append_nil]

end

/-! ## Conditions -/

/-- The words that mean something where the left word of a comparison stands. -/
def ifKeywords : List String := ["NOT", "/I", "EXIST", "DEFINED", "ERRORLEVEL"]

/-- What is written for the two flags of a condition. -/
inductive FlagWords : (negated ignoreCase : Bool) → List String → Prop where
  | neither : FlagWords false false []
  | negated {v : String} (hv : v.map Char.toUpper = "NOT") : FlagWords true false [v]
  | ignoring {v : String} (hv : v.map Char.toUpper = "/I") : FlagWords false true [v]
  | negatedIgnoring {v w : String} (hv : v.map Char.toUpper = "NOT") (hw : w.map Char.toUpper = "/I") :
      FlagWords true true [v, w]
  | ignoringNegated {v w : String} (hv : v.map Char.toUpper = "/I") (hw : w.map Char.toUpper = "NOT") :
      FlagWords true true [v, w]

/-- What is written for a test. The left word of a comparison is no keyword and has no `==` of its own outside
quotes. -/
inductive TestWords : Test → List String → Prop where
  | exist {v path : String} (hv : v.map Char.toUpper = "EXIST") : TestWords (.exist path) [v, path]
  | defined {v name : String} (hv : v.map Char.toUpper = "DEFINED") : TestWords (.defined name) [v, name]
  | errorLevel {v level : String} (hv : v.map Char.toUpper = "ERRORLEVEL") : TestWords (.errorLevel level) [v, level]
  | keyword {left v right : String} {op : CompareOp} (hleft : left.map Char.toUpper ∉ ifKeywords)
      (hequals : ∀ as bs, left.toList = as ++ '=' :: '=' :: bs → as.count '"' % 2 = 1) (hop : op ≠ .equal)
      (hv : v.map Char.toUpper = op.text) : TestWords (.compare left op right) [left, v, right]
  /-- `left==right` -/
  | joined {left right : String} (hequals : '=' ∉ left.toList) (hquotes : left.toList.count '"' % 2 = 0)
      (hright : right ≠ "") : TestWords (.compare left .equal right) [left ++ "==" ++ right]
  /-- `left == right` -/
  | apart {left right : String} (hleft : left.map Char.toUpper ∉ ifKeywords) (hequals : '=' ∉ left.toList) :
      TestWords (.compare left .equal right) [left, "==", right]
  /-- `left== right` -/
  | joinedLeft {left right : String} (hequals : '=' ∉ left.toList) (hquotes : left.toList.count '"' % 2 = 0) :
      TestWords (.compare left .equal right) [left ++ "==", right]
  /-- `left ==right` -/
  | joinedRight {left right : String} (hleft : left.map Char.toUpper ∉ ifKeywords) (hequals : '=' ∉ left.toList)
      (hright : right ≠ "") : TestWords (.compare left .equal right) [left, "==" ++ right]

/-- A quote changes whether the next character stands inside quotes. -/
theorem parity_flip (n : Nat) (quoted : Bool) : (n + 1 + quoted.toNat) % 2 = (n + (!quoted).toNat) % 2 := by
  cases quoted with
  | false => rfl
  | true => exact Nat.add_mod_right n 2

/-- Without a `==` outside quotes there is nothing to cut. -/
theorem cutEquals_eq_none {cs : List Char} (quoted : Bool)
    (h : ∀ as bs, cs = as ++ '=' :: '=' :: bs → (as.count '"' + quoted.toNat) % 2 = 1) :
    cutEquals quoted cs = none := by
  induction cs generalizing quoted with
  | nil => rfl
  | cons c cs ih =>
    rw [cutEquals]
    by_cases hquote : c = '"'
    · subst hquote
      rw [if_pos (beq_self_eq_true _), ih _ fun as bs heq => ?_]
      · rfl
      · have hmore := h ('"' :: as) bs (congrArg ('"' :: ·) heq)
        rwa [List.count_cons_self, parity_flip] at hmore
    · have hkeep : ¬ (!quoted && c == '=' && cs.head? == some '=') = true := by
        simp only [Bool.and_eq_true, Bool.not_eq_true', beq_iff_eq, List.head?_eq_some_iff, not_and, not_exists]
        rintro ⟨rfl, rfl⟩ bs rfl
        cases h [] bs rfl
      rw [if_neg (by simpa using hquote), if_neg hkeep, ih _ fun as bs heq => ?_]
      · rfl
      · have hmore := h (c :: as) bs (congrArg (c :: ·) heq)
        rwa [List.count_cons_of_ne hquote] at hmore

theorem cutEquals_of_not_mem {cs : List Char} (h : '=' ∉ cs) : cutEquals false cs = none := by
  refine cutEquals_eq_none false fun as bs heq => ?_
  simp [heq] at h

/-- A text is cut at the first `==` where its quotes are closed. -/
theorem cutEquals_append {cs : List Char} (h : '=' ∉ cs) (quoted : Bool)
    (hquotes : (cs.count '"' + quoted.toNat) % 2 = 0) (tail : List Char) :
    cutEquals quoted (cs ++ '=' :: '=' :: tail) = some (cs, tail) := by
  induction cs generalizing quoted with
  | nil =>
    cases quoted with
    | false => rfl
    | true => cases hquotes
  | cons c cs ih =>
    obtain ⟨hc, hcs⟩ := List.ne_and_not_mem_of_not_mem_cons h
    by_cases hquote : c = '"'
    · subst hquote
      rw [List.count_cons_self, parity_flip] at hquotes
      simp [cutEquals, ih hcs _ hquotes]
    · rw [List.count_cons_of_ne hquote] at hquotes
      simp [cutEquals, ih hcs _ hquotes, hquote, Ne.symm hc]

section

variable {run rest ts : List Token} {w : String} {lineEnd : Nat}

/-- The flags of a condition and what follows them. -/
def flagsOf (negated ignoreCase : Bool) (ts : List Token) : Bool × Bool × List Token :=
  ((conditionFlags negated ignoreCase ts).1, (conditionFlags negated ignoreCase ts).2.1,
    (conditionFlags negated ignoreCase ts).2.2.val)

theorem flagsOf_not (h : SaysWord run w) (hw : w.map Char.toUpper = "NOT") (hrest : Unglued rest) (ignoreCase : Bool) :
    flagsOf false ignoreCase (run ++ rest) = flagsOf true ignoreCase rest := by
  obtain ⟨start, hlt, hword⟩ := h.word? hrest
  have hkey := h.peekKeyword? hrest
  rw [hw] at hkey
  unfold flagsOf
  rw [conditionFlags, hkey, hword]
  rfl

theorem flagsOf_ignore (h : SaysWord run w) (hw : w.map Char.toUpper = "/I") (hrest : Unglued rest) (negated : Bool) :
    flagsOf negated false (run ++ rest) = flagsOf negated true rest := by
  obtain ⟨start, hlt, hword⟩ := h.word? hrest
  have hkey := h.peekKeyword? hrest
  rw [hw] at hkey
  unfold flagsOf
  rw [conditionFlags, hkey, hword]
  rfl

/-- The flags end before any other word. -/
theorem flagsOf_stop (h : SaysWord run w) (hrest : Unglued rest) (hw : w.map Char.toUpper ∉ ["NOT", "/I"])
    (negated ignoreCase : Bool) : flagsOf negated ignoreCase (run ++ rest) = (negated, ignoreCase, run ++ rest) := by
  have hkey := h.peekKeyword? hrest
  simp only [List.mem_cons, List.not_mem_nil, or_false, not_or] at hw
  unfold flagsOf
  rw [conditionFlags]
  split
  · rename_i hflag _
    cases hw.2 (Option.some.inj (hkey.symm.trans hflag))
  · rename_i hflag _
    cases hw.1 (Option.some.inj (hkey.symm.trans hflag))
  · rfl

/-- A test that a keyword starts. -/
theorem keywordTest_written (h : SaysWord run w) {u : List Token} {v : String} (hu : SaysWord u v)
    (hspace : Unglued (u ++ rest)) (hrest : Unglued rest) (what : Expected) (make : String → Test) :
    bare (keywordTest lineEnd what make (run ++ (u ++ rest))) = .ok (make v, rest) := by
  obtain ⟨start, hlt, hword⟩ := h.word? hspace
  obtain ⟨start', hlt', hnext⟩ := hu.expectWord hrest lineEnd what
  rw [keywordTest, hword]
  dsimp only
  rw [hnext]
  rfl

/-- The right word of a comparison, apart from the sign. -/
theorem rightOperand_word (h : SaysWord run w) (hrest : Unglued rest) :
    bare (rightOperand lineEnd [] (run ++ rest)) = .ok (w, rest) := by
  obtain ⟨start, hlt, hword⟩ := h.expectWord hrest lineEnd .rightOperand
  rw [rightOperand, if_pos List.isEmpty_nil, hword]
  rfl

/-- The right word of a comparison, glued to the sign. -/
theorem rightOperand_tail {tail : String} (h : tail ≠ "") (ts : List Token) :
    bare (rightOperand lineEnd tail.toList ts) = .ok (tail, ts) := by
  have hne : tail.toList ≠ [] := mt String.toList_eq_nil_iff.mp h
  rw [rightOperand, if_neg (by simpa using hne), String.ofList_toList]
  rfl

/-- A word with the sign in it is cut there. -/
theorem cutEquals_joined {left : String} (hequals : '=' ∉ left.toList) (hquotes : left.toList.count '"' % 2 = 0)
    (tail : String) : cutEquals false (left ++ "==" ++ tail).toList = some (left.toList, tail.toList) := by
  have hcut : cutEquals false (left.toList ++ '=' :: '=' :: tail.toList) = some (left.toList, tail.toList) :=
    cutEquals_append hequals false hquotes tail.toList
  simpa using hcut

/-- A comparison whose first word has the sign in it. -/
theorem comparison_joined {left tail : String} (h : SaysWord run (left ++ "==" ++ tail)) (hrest : Unglued rest)
    (hequals : '=' ∉ left.toList) (hquotes : left.toList.count '"' % 2 = 0) {right : String} {after : List Token}
    (hright : bare (rightOperand lineEnd tail.toList rest) = .ok (right, after)) :
    bare (comparison lineEnd (run ++ rest)) = .ok (.compare left .equal right, after) := by
  obtain ⟨start, hlt, hword⟩ := h.expectWord hrest lineEnd .condition
  obtain ⟨hle, hright⟩ := bare_eq_ok.mp hright
  rw [comparison, hword, Except.bind_ok]
  dsimp only
  rw [cutEquals_joined hequals hquotes]
  dsimp only
  rw [hright, String.ofList_toList]
  rfl

/-- A comparison whose second word starts with the sign. -/
theorem comparison_apart (h : SaysWord run w) {u : List Token} {tail : String} (hu : SaysWord u ("==" ++ tail))
    (hspace : Unglued (u ++ rest)) (hrest : Unglued rest) (hequals : '=' ∉ w.toList) {right : String}
    {after : List Token} (hright : bare (rightOperand lineEnd tail.toList rest) = .ok (right, after)) :
    bare (comparison lineEnd (run ++ (u ++ rest))) = .ok (.compare w .equal right, after) := by
  obtain ⟨start, hlt, hword⟩ := h.expectWord hspace lineEnd .condition
  obtain ⟨start', hlt', hsecond⟩ := hu.expectWord hrest lineEnd .comparison
  obtain ⟨hle, hright⟩ := bare_eq_ok.mp hright
  have hsign : ("==" ++ tail).toList = '=' :: '=' :: tail.toList := by rw [String.toList_append]; rfl
  rw [comparison, hword, Except.bind_ok]
  dsimp only
  rw [cutEquals_of_not_mem hequals]
  dsimp only
  rw [hsecond, Except.bind_ok]
  simp only [hsign]
  rw [hright]
  rfl

theorem CompareOp.ofKeyword?_text {v : String} {op : CompareOp} (hop : op ≠ .equal)
    (hv : v.map Char.toUpper = op.text) : CompareOp.ofKeyword? v = some op := by
  rw [CompareOp.ofKeyword?, hv]
  cases op with
  | equal => exact absurd rfl hop
  | _ => rfl

/-- A comparison by a keyword. -/
theorem comparison_keyword (h : SaysWord run w) {u v : List Token} {k right : String} {op : CompareOp}
    (hu : SaysWord u k) (hv : SaysWord v right) (hcut : cutEquals false w.toList = none) (hop : op ≠ .equal)
    (hk : k.map Char.toUpper = op.text) (hspace : Unglued (u ++ (v ++ rest))) (hspace' : Unglued (v ++ rest))
    (hrest : Unglued rest) :
    bare (comparison lineEnd (run ++ (u ++ (v ++ rest)))) = .ok (.compare w op right, rest) := by
  obtain ⟨start, hlt, hword⟩ := h.expectWord hspace lineEnd .condition
  obtain ⟨start', hlt', hsecond⟩ := hu.expectWord hspace' lineEnd .comparison
  obtain ⟨start'', hlt'', hthird⟩ := hv.expectWord hrest lineEnd .rightOperand
  have hsign : ∀ tail, k.toList ≠ '=' :: '=' :: tail := by
    intro tail heq
    have htext := congrArg String.toList hk
    rw [String.toList_map, heq] at htext
    cases op with
    | equal => exact hop rfl
    | _ => cases htext
  rw [comparison, hword, Except.bind_ok]
  dsimp only
  rw [hcut]
  dsimp only
  rw [hsecond, Except.bind_ok]
  dsimp only
  split
  · rename_i tail heq
    exact absurd heq (hsign tail)
  · rw [CompareOp.ofKeyword?_text hop hk]
    dsimp only
    rw [hthird]
    rfl

theorem test_keyword (h : SaysWord run w) {u : List Token} {v : String} (hu : SaysWord u v)
    (hspace : Unglued (u ++ rest)) (hrest : Unglued rest) {make : String → Test}
    (hw : w.map Char.toUpper = "EXIST" ∧ make = .exist ∨ w.map Char.toUpper = "DEFINED" ∧ make = .defined ∨
      w.map Char.toUpper = "ERRORLEVEL" ∧ make = .errorLevel) :
    bare (test lineEnd (run ++ (u ++ rest))) = .ok (make v, rest) := by
  rw [test, h.peekKeyword? hspace]
  obtain ⟨hw, rfl⟩ | ⟨hw, rfl⟩ | ⟨hw, rfl⟩ := hw <;> rw [hw] <;>
    exact keywordTest_written h hu hspace hrest _ _

theorem test_comparison (h : SaysWord run w) (hrest : Unglued rest) (hw : w.map Char.toUpper ∉ ifKeywords) :
    test lineEnd (run ++ rest) = comparison lineEnd (run ++ rest) := by
  simp only [ifKeywords, List.mem_cons, List.not_mem_nil, or_false, not_or] at hw
  rw [test, h.peekKeyword? hrest]
  split
  · rename_i hkey
    cases hw.2.2.1 (Option.some.inj hkey)
  · rename_i hkey
    cases hw.2.2.2.1 (Option.some.inj hkey)
  · rename_i hkey
    cases hw.2.2.2.2 (Option.some.inj hkey)
  · rfl

/-- A word with an equals sign is no keyword. -/
theorem not_keyword_of_equals {left tail : String} : (left ++ "==" ++ tail).map Char.toUpper ∉ ifKeywords := by
  have hmem : '=' ∈ ((left ++ "==" ++ tail).map Char.toUpper).toList := by
    rw [String.toList_map]
    exact List.mem_map.mpr ⟨'=', by simp, rfl⟩
  intro hkey
  have hall : ∀ key ∈ ifKeywords, '=' ∉ key.toList := by decide
  exact hall _ hkey hmem

/-- A test is read back. -/
theorem test_written {asked : Test} {ws : List String} (hws : TestWords asked ws) (h : Words ts ws)
    (hrest : Unglued rest) : bare (test lineEnd (ts ++ rest)) = .ok (asked, rest) := by
  -- the first word decides how the test goes on
  obtain ⟨w, ws', rfl⟩ : ∃ w ws', ws = w :: ws' := by cases hws <;> exact ⟨_, _, rfl⟩
  obtain ⟨first, us, hall, hfirst, hmore, hspace⟩ := h.head hrest
  rw [hall]
  cases hws with
  | exist hv | defined hv | errorLevel hv =>
    obtain ⟨operand, _, hus, hoperand, ⟨⟩, -⟩ := hmore.head hrest
    rw [hus] at hspace ⊢
    refine test_keyword hfirst hoperand hspace hrest ?_
    simp [hv]
  | keyword hleft hequals hop hv =>
    obtain ⟨key, _, hus, hkey, hlast, hspace'⟩ := hmore.head hrest
    obtain ⟨right, _, hvs, hright, ⟨⟩, -⟩ := hlast.head hrest
    rw [hus] at hspace ⊢
    rw [hvs] at hspace hspace' ⊢
    rw [test_comparison hfirst hspace hleft]
    exact comparison_keyword hfirst hkey hright (cutEquals_eq_none false hequals) hop hv hspace hspace' hrest
  | joined hequals hquotes hright =>
    cases hmore
    rw [test_comparison hfirst hspace not_keyword_of_equals]
    exact comparison_joined hfirst hspace hequals hquotes (rightOperand_tail hright _)
  | apart hleft hequals =>
    obtain ⟨sign, _, hus, hsign, hlast, hspace'⟩ := hmore.head hrest
    obtain ⟨operand, _, hvs, hoperand, ⟨⟩, -⟩ := hlast.head hrest
    rw [hus] at hspace ⊢
    rw [hvs] at hspace hspace' ⊢
    rw [test_comparison hfirst hspace hleft]
    rw [← String.append_empty (s := "==")] at hsign
    exact comparison_apart hfirst hsign hspace hspace' hequals (rightOperand_word hoperand hrest)
  | @joinedLeft left _ hequals hquotes =>
    obtain ⟨operand, _, hus, hoperand, ⟨⟩, -⟩ := hmore.head hrest
    rw [← String.append_empty (s := left ++ "==")] at hfirst
    rw [hus] at hspace ⊢
    rw [test_comparison hfirst hspace not_keyword_of_equals]
    exact comparison_joined hfirst hspace hequals hquotes (rightOperand_word hoperand hrest)
  | joinedRight hleft hequals hright =>
    obtain ⟨sign, _, hus, hsign, ⟨⟩, -⟩ := hmore.head hrest
    rw [hus] at hspace ⊢
    rw [test_comparison hfirst hspace hleft]
    exact comparison_apart hfirst hsign hspace hrest hequals (rightOperand_tail hright _)

/-- The first word of a test is no flag of the condition. -/
theorem TestWords.not_flag {asked : Test} {ws : List String} (h : TestWords asked (w :: ws)) :
    w.map Char.toUpper ∉ ["NOT", "/I"] := by
  have hflags : ∀ key ∈ ["NOT", "/I"], key ∈ ifKeywords := by decide
  cases h with
  | exist hv | defined hv | errorLevel hv => rw [hv]; decide
  | keyword hleft | apart hleft | joinedRight hleft => exact fun hkey => hleft (hflags _ hkey)
  | joined => exact fun hkey => not_keyword_of_equals (hflags _ hkey)
  | @joinedLeft left right =>
    rw [← String.append_empty (s := left ++ "==")]
    exact fun hkey => not_keyword_of_equals (hflags _ hkey)

/-- The flags of a condition are read back, up to the first word that is none. -/
theorem flagsOf_written {negated ignoreCase : Bool} {ws : List String} (hws : FlagWords negated ignoreCase ws)
    (h : Words ts ws) (hrun : SaysWord run w) (hspace : Unglued (run ++ rest)) (hrest : Unglued rest)
    (hw : w.map Char.toUpper ∉ ["NOT", "/I"]) :
    flagsOf false false (ts ++ (run ++ rest)) = (negated, ignoreCase, run ++ rest) := by
  cases hws with
  | neither =>
    cases h
    exact flagsOf_stop hrun hrest hw false false
  | negated hv =>
    obtain ⟨first, _, hall, hfirst, ⟨⟩, -⟩ := h.head hspace
    rw [hall]
    exact (flagsOf_not hfirst hv hspace false).trans (flagsOf_stop hrun hrest hw true false)
  | ignoring hv =>
    obtain ⟨first, _, hall, hfirst, ⟨⟩, -⟩ := h.head hspace
    rw [hall]
    exact (flagsOf_ignore hfirst hv hspace false).trans (flagsOf_stop hrun hrest hw false true)
  | negatedIgnoring hv hv' =>
    obtain ⟨first, us, hall, hfirst, hmore, hus⟩ := h.head hspace
    obtain ⟨second, _, hall', hsecond, ⟨⟩, -⟩ := hmore.head hspace
    rw [hall, flagsOf_not hfirst hv hus, hall']
    exact (flagsOf_ignore hsecond hv' hspace true).trans (flagsOf_stop hrun hrest hw true true)
  | ignoringNegated hv hv' =>
    obtain ⟨first, us, hall, hfirst, hmore, hus⟩ := h.head hspace
    obtain ⟨second, _, hall', hsecond, ⟨⟩, -⟩ := hmore.head hspace
    rw [hall, flagsOf_ignore hfirst hv hus, hall']
    exact (flagsOf_not hsecond hv' hspace true).trans (flagsOf_stop hrun hrest hw true true)

theorem condition_eq (lineEnd : Nat) (ts : List Token) :
    bare (condition lineEnd ts) = (do
      let (asked, rest) ← bare (test lineEnd (flagsOf false false ts).2.2)
      .ok (⟨(flagsOf false false ts).1, (flagsOf false false ts).2.1, asked⟩, rest)) := by
  rw [condition]
  dsimp only [flagsOf]
  obtain e | ⟨asked, rest⟩ := test lineEnd (conditionFlags false false ts).2.2.val <;> rfl

end

/-- The word `keyword` in any case, perhaps with at-signs before it. -/
def FormWord (keyword w : String) : Prop :=
  (String.ofList (w.toList.dropWhile (· == '@'))).map Char.toUpper = keyword

/-- What is written from `IF` to the end of the condition. -/
inductive IfWritten : List Token → Condition → Prop where
  | mk {word w flags tests asked flagTokens testTokens} (hword : SaysWord word w) (hw : FormWord "IF" w)
      (hflags : FlagWords asked.negated asked.ignoreCase flags) (hflagTokens : Words flagTokens flags)
      (htest : TestWords asked.test tests) (htestTokens : Words testTokens tests) :
      IfWritten (word ++ (flagTokens ++ testTokens)) asked

section

variable {run rest ts : List Token} {w : String} {lineEnd : Nat}

theorem SaysWord.keywordAt {keyword : String} (h : SaysWord run w) (hw : FormWord keyword w) (hrest : Unglued rest) :
    keywordAt (run ++ rest) = some keyword := by
  obtain ⟨start, hlt, hword⟩ := h.word? hrest
  rw [Parser.keywordAt, peekWord?, hword]
  exact congrArg some hw

/-- **A condition is read back**, before anything that is not glued to it. -/
theorem ifHead_written {asked : Condition} (h : IfWritten ts asked) (hrest : Unglued rest) :
    keywordAt (ts ++ rest) = some "IF" ∧ ifHead lineEnd (ts ++ rest) = .ok (asked, rest) := by
  obtain @⟨word, w, flags, tests, asked, flagTokens, testTokens, hword, hw, hflags, hflagTokens, htest, htestTokens⟩ := h
  obtain ⟨negated, ignoreCase, asked⟩ := asked
  obtain ⟨v, vs, rfl⟩ : ∃ v vs, tests = v :: vs := by cases htest <;> exact ⟨_, _, rfl⟩
  have htests : Unglued (testTokens ++ rest) := htestTokens.unglued hrest
  obtain ⟨first, us, hall, hfirst, -, hus⟩ := htestTokens.head hrest
  have hflagged : flagsOf false false (flagTokens ++ (testTokens ++ rest)) =
      (negated, ignoreCase, testTokens ++ rest) := by
    rw [hall] at htests ⊢
    exact flagsOf_written hflags hflagTokens hfirst htests hus htest.not_flag
  have hspace : Unglued (flagTokens ++ (testTokens ++ rest)) := hflagTokens.unglued htests
  rw [List.append_assoc, List.append_assoc]
  refine ⟨hword.keywordAt hw hspace, ?_⟩
  obtain ⟨start, hlt, hnext⟩ := hword.expectWord hspace lineEnd .ifWord
  rw [ifHead, hnext, Except.bind_ok]
  dsimp only
  rw [condition_eq, hflagged, test_written htest htestTokens hrest]
  rfl

end

/-! ## Loops -/

/-- The switches of a loop that stand alone. -/
def loopSwitches : List (String × LoopKind) :=
  [("/D", .directories), ("/L", .range), ("/R", .recursive none), ("/F", .lines "")]

/-- What is written for the kind of a loop. -/
inductive KindWritten : List Token → LoopKind → Prop where
  | items : KindWritten [] .items
  | switch {ts v kind} (hv : (v.map Char.toUpper, kind) ∈ loopSwitches) (hts : Words ts [v]) : KindWritten ts kind
  /-- `/R root` -/
  | rooted {ts v root} (hv : v.map Char.toUpper = "/R") (hroot : root.toList.head? ≠ some '%')
      (hts : Words ts [v, root]) : KindWritten ts (.recursive (some root))
  /-- `/F "options"` -/
  | optioned {ts v options} {t : Token} (hv : v.map Char.toUpper = "/F") (hts : Words ts [v])
      (ht : t.lexeme = .word ("\"" ++ options ++ "\"") true) (hspace : t.leading ≠ "")
      (hfirst : options.toList.head? ≠ some '"') (hlast : options.toList.getLast? ≠ some '"') :
      KindWritten (ts ++ [t]) (.lines options)

/-- What is written for a loop variable: one percent sign before a character that is none, or two before any. -/
inductive VariableWritten : List Token → Char → Prop where
  | mk {run w letter} (hword : SaysWord run w) (hspace : ∀ t us, run = t :: us → t.leading ≠ "")
      (hplain : ∀ t us text, run = t :: us → t.lexeme ≠ .word text true)
      (hw : w.toList = ['%', letter] ∧ letter ≠ '%' ∨ w.toList = ['%', '%', letter]) : VariableWritten run letter

/-- The text of a set, without the white space before its first token. -/
def rawSet : List Token → String
  | [] => ""
  | t :: ts => t.text ++ rawText ts

/-- The tokens of a set, on one line and with its parentheses in pairs. -/
structure SetWritten (ts : List Token) (raw : String) : Prop where
  oneLine : ∀ t ∈ ts, t.isOp .lineBreak = false
  opens : ∀ us, us <+: ts → 0 ≤ rise us
  closes : rise ts = 0
  solid : ∀ t us, ts = t :: us → t.text ≠ ""
  raw_eq : raw = rawSet ts

/-- A text without separators outside its quotes. -/
def IsItem (cs : List Char) : Prop :=
  cs ≠ [] ∧ ∀ as c bs, cs = as ++ c :: bs → separatesItems c = true → as.count '"' % 2 = 1

/-- A text divided at the separators outside quotes. -/
inductive Divided : List Char → List String → Prop where
  | nil : Divided [] []
  | skip {c cs items} (hc : separatesItems c = true) (hmore : Divided cs items) : Divided (c :: cs) items
  | last {cs} (hitem : IsItem cs) : Divided cs [String.ofList cs]
  | item {cs c rest items} (hitem : IsItem cs) (hquotes : cs.count '"' % 2 = 0) (hc : separatesItems c = true)
      (hmore : Divided rest items) : Divided (cs ++ c :: rest) (String.ofList cs :: items)

/-- What is written for a loop from `FOR` to `DO`. -/
inductive ForWritten : List Token → LoopHead → Prop where
  | mk {word w switch named inWord v set doWord u} {opened closed : Token} {kept : LoopHead}
      (hword : SaysWord word w) (hw : FormWord "FOR" w) (hkind : KindWritten switch kept.kind)
      (hnamed : VariableWritten named kept.letter) (hin : Words inWord [v]) (hv : v.map Char.toUpper = "IN")
      (hopen : opened.isOp .openParen = true) (hset : SetWritten set kept.rawSet)
      (hitems : Divided kept.rawSet.toList kept.items) (hclose : closed.isOp .closeParen = true)
      (hdo : SaysWord doWord u) (hu : u.map Char.toUpper = "DO") :
      ForWritten (word ++ (switch ++ (named ++ (inWord ++ opened :: (set ++ closed :: doWord))))) kept

section

variable {run rest ts : List Token} {w : String} {lineEnd : Nat}

/-- The kind of a loop and what follows it. -/
def kindOf (kind : LoopKind) (ts : List Token) : LoopKind × List Token :=
  ((loopKind kind ts).1, (loopKind kind ts).2.val)

/-- A switch sets the kind, and may take a word or a quoted text for it. -/
theorem kindOf_switch (h : SaysWord run w) (hrest : Unglued rest) (kind : LoopKind) {next : LoopKind × List Token}
    (hw : w.map Char.toUpper = "/L" ∧ next = (.range, rest) ∨
      w.map Char.toUpper = "/D" ∧ next = (.directories, rest) ∨
      w.map Char.toUpper = "/R" ∧ next = (.recursive (recursionRoot rest).1, (recursionRoot rest).2.val) ∨
      w.map Char.toUpper = "/F" ∧ next = (.lines (lineOptionText rest).1, (lineOptionText rest).2.val)) :
    kindOf kind (run ++ rest) = kindOf next.1 next.2 := by
  obtain ⟨start, hlt, hword⟩ := h.word? hrest
  have hkey := h.peekKeyword? hrest
  unfold kindOf
  rw [loopKind, hkey, hword]
  obtain ⟨hw, rfl⟩ | ⟨hw, rfl⟩ | ⟨hw, rfl⟩ | ⟨hw, rfl⟩ := hw <;> rw [hw] <;> rfl

/-- The switches end before the variable. -/
theorem kindOf_stop (h : SaysWord run w) (hw : w.toList.head? = some '%') (hrest : Unglued rest) (kind : LoopKind) :
    kindOf kind (run ++ rest) = (kind, run ++ rest) := by
  have hkey := h.peekKeyword? hrest
  have hno : ∀ key, key.toList.head? ≠ some '%' → peekKeyword? (run ++ rest) ≠ some key := by
    rintro key hhead hpeek
    obtain rfl := Option.some.inj (hkey.symm.trans hpeek)
    apply hhead
    rw [String.toList_map, List.head?_map, hw]
    rfl
  unfold kindOf
  rw [loopKind]
  split
  · rename_i hpeek _
    cases hno "/L" (by decide) hpeek
  · rename_i hpeek _
    cases hno "/D" (by decide) hpeek
  · rename_i hpeek _
    cases hno "/R" (by decide) hpeek
  · rename_i hpeek _
    cases hno "/F" (by decide) hpeek
  · rfl

/-- No root is taken from a loop variable. -/
theorem recursionRoot_variable (h : SaysWord run w) (hw : w.toList.head? = some '%') (hrest : Unglued rest) :
    recursionRoot (run ++ rest) = (none, .all (run ++ rest)) := by
  obtain ⟨start, hlt, hword⟩ := h.word? hrest
  rw [recursionRoot, hword]
  dsimp only
  rw [hw, if_pos (beq_self_eq_true _)]

theorem recursionRoot_word (h : SaysWord run w) (hw : w.toList.head? ≠ some '%') (hrest : Unglued rest) :
    (recursionRoot (run ++ rest)).1 = some w ∧ (recursionRoot (run ++ rest)).2.val = rest := by
  obtain ⟨start, hlt, hword⟩ := h.word? hrest
  rw [recursionRoot, hword]
  dsimp only
  rw [if_neg (by simpa using hw)]
  exact ⟨rfl, rfl⟩

/-- No options are taken from a word that is not quoted. -/
theorem lineOptionText_plain (h : SaysWord run w) (hplain : ∀ t us text, run = t :: us → t.lexeme ≠ .word text true)
    (rest : List Token) : lineOptionText (run ++ rest) = ("", .all (run ++ rest)) := by
  obtain ⟨t, us, rfl, -⟩ := h
  rw [List.cons_append, lineOptionText]
  split
  · rename_i text hlexeme
    cases hplain t us text rfl hlexeme
  · rfl

theorem dropWhile_quote {cs : List Char} (h : cs.head? ≠ some '"') : cs.dropWhile (· == '"') = cs := by
  cases cs with
  | nil => rfl
  | cons c cs => rw [List.dropWhile_cons_of_neg (by simpa using h)]

/-- The quotes around a text are trimmed, and no others. -/
theorem trimQuotes_quoted {s : String} (hfirst : s.toList.head? ≠ some '"') (hlast : s.toList.getLast? ≠ some '"') :
    trimQuotes ("\"" ++ s ++ "\"") = s := by
  have htext : ("\"" ++ s ++ "\"").toList = '"' :: (s.toList ++ ['"']) := by simp
  rw [trimQuotes, htext, List.dropWhile_cons_of_pos rfl]
  by_cases hempty : s.toList = []
  · rw [hempty, String.toList_eq_nil_iff.mp hempty]
    rfl
  · have hback : s.toList.reverse.head? ≠ some '"' := by rwa [List.head?_reverse]
    have hfront : (s.toList ++ ['"']).head? ≠ some '"' := by
      obtain ⟨c, cs, hcs⟩ := List.exists_cons_of_ne_nil hempty
      rw [hcs] at hfirst ⊢
      exact hfirst
    rw [dropWhile_quote hfront, List.reverse_append, List.reverse_singleton, List.singleton_append,
      List.dropWhile_cons_of_pos rfl, dropWhile_quote hback, List.reverse_reverse, String.ofList_toList]

theorem lineOptionText_quoted {t : Token} {options : String} (ht : t.lexeme = .word ("\"" ++ options ++ "\"") true)
    (hfirst : options.toList.head? ≠ some '"') (hlast : options.toList.getLast? ≠ some '"') (rest : List Token) :
    (lineOptionText (t :: rest)).1 = options ∧ (lineOptionText (t :: rest)).2.val = rest := by
  rw [lineOptionText, ht]
  exact ⟨trimQuotes_quoted hfirst hlast, rfl⟩

/-- The kind of a loop is read back, before the variable. -/
theorem kindOf_written {kind : LoopKind} (h : KindWritten ts kind) (hrun : SaysWord run w)
    (hw : w.toList.head? = some '%') (hplain : ∀ t us text, run = t :: us → t.lexeme ≠ .word text true)
    (hspace : Unglued (run ++ rest)) (hrest : Unglued rest) :
    kindOf .items (ts ++ (run ++ rest)) = (kind, run ++ rest) := by
  have hstop := kindOf_stop hrun hw hrest
  cases h with
  | items => exact hstop .items
  | switch hv hts =>
    obtain ⟨first, _, hall, hfirst, ⟨⟩, -⟩ := hts.head hspace
    rw [hall]
    simp only [loopSwitches, List.mem_cons, List.not_mem_nil, or_false, Prod.mk.injEq] at hv
    obtain ⟨hv, rfl⟩ | ⟨hv, rfl⟩ | ⟨hv, rfl⟩ | ⟨hv, rfl⟩ := hv
    · exact (kindOf_switch hfirst hspace .items (.inr (.inl ⟨hv, rfl⟩))).trans (hstop _)
    · exact (kindOf_switch hfirst hspace .items (.inl ⟨hv, rfl⟩)).trans (hstop _)
    · rw [List.nil_append, kindOf_switch hfirst hspace .items (.inr (.inr (.inl ⟨hv, rfl⟩))),
        recursionRoot_variable hrun hw hrest]
      exact hstop _
    · rw [List.nil_append, kindOf_switch hfirst hspace .items (.inr (.inr (.inr ⟨hv, rfl⟩))),
        lineOptionText_plain hrun hplain]
      exact hstop _
  | rooted hv hroot hts =>
    obtain ⟨first, us, hall, hfirst, hmore, hus⟩ := hts.head hspace
    obtain ⟨second, _, hall', hsecond, ⟨⟩, -⟩ := hmore.head hspace
    obtain ⟨hone, htwo⟩ := recursionRoot_word hsecond hroot hspace
    rw [hall, kindOf_switch hfirst hus .items (.inr (.inr (.inl ⟨hv, rfl⟩))), hall', List.nil_append, hone, htwo]
    exact hstop _
  | @optioned ts v options t hv hts ht htspace hfirst hlast =>
    have hus : Unglued (t :: (run ++ rest)) := by
      intro u us heq
      cases heq
      simp [isGlued, htspace]
    obtain ⟨first, _, hall, hfirst', ⟨⟩, -⟩ := hts.head hus
    obtain ⟨hone, htwo⟩ := lineOptionText_quoted ht hfirst hlast (run ++ rest)
    rw [List.append_assoc, List.singleton_append, hall, List.nil_append,
      kindOf_switch hfirst' hus .items (.inr (.inr (.inr ⟨hv, rfl⟩))), hone, htwo]
    exact hstop _

/-- The text of a set and what follows it. -/
def setOf (nested : Nat) (raw : String) (ts : List Token) : Option (String × List Token) :=
  (setText nested raw ts).map fun found => (found.1, found.2.val)

theorem setOf_end {t : Token} (h : t.isOp .closeParen = true) (raw : String) (ts : List Token) :
    setOf 0 raw (t :: ts) = some (raw, ts) := by
  rw [setOf, setText, if_pos h, if_pos rfl]
  rfl

/-- The text of a set with one token more. -/
def addToSet (raw : String) (t : Token) : String := if raw.isEmpty then t.text else raw ++ t.leading ++ t.text

/-- A token of a set that is not its end. -/
theorem setOf_cons {t : Token} {nested nested' : Nat} (hbreak : t.isOp .lineBreak = false)
    (hnested : (nested' : Int) = nested + tokenRise t) (raw : String) (ts : List Token) :
    setOf nested raw (t :: ts) = setOf nested' (addToSet raw t) ts := by
  rw [setOf, setText, setOf]
  dsimp only
  split
  · rename_i hclose
    rw [tokenRise_close hclose] at hnested
    rw [if_neg (by omega), Option.map_map, show nested - 1 = nested' by omega]
    rfl
  · split
    · rename_i hopen
      rw [tokenRise_open hopen] at hnested
      rw [Option.map_map, show nested + 1 = nested' by omega]
      rfl
    · rename_i hclose hopen
      rw [tokenRise_other hopen hclose] at hnested
      rw [hbreak, if_neg Bool.false_ne_true, Option.map_map, show nested = nested' by omega]
      rfl

/-- A set is read up to the parenthesis that closes it. -/
theorem setOf_append {set : List Token} {closed : Token} (hclose : closed.isOp .closeParen = true) {nested : Nat}
    (honeLine : ∀ t ∈ set, t.isOp .lineBreak = false) (hopens : ∀ us, us <+: set → 0 ≤ nested + rise us)
    (hcloses : nested + rise set = 0) (raw : String) (rest : List Token) :
    setOf nested raw (set ++ closed :: rest) = some (set.foldl addToSet raw, rest) := by
  induction set generalizing nested raw with
  | nil =>
    obtain rfl : nested = 0 := by simpa using hcloses
    exact setOf_end hclose raw rest
  | cons t set ih =>
    have hfirst : 0 ≤ nested + tokenRise t := by simpa using hopens [t] (by simp)
    obtain ⟨nested', hnested⟩ := Int.eq_ofNat_of_zero_le hfirst
    rw [List.cons_append, setOf_cons (honeLine t (by simp)) hnested.symm]
    refine ih (fun u hu => honeLine u (by simp [hu])) (fun us hus => ?_) ?_ _
    · have := hopens (t :: us) (by simpa using hus)
      rw [rise_cons] at this
      omega
    · rw [rise_cons] at hcloses
      omega

/-- White space is dropped only before the first token. -/
theorem foldl_addToSet {raw : String} (hraw : raw ≠ "") (set : List Token) :
    set.foldl addToSet raw = raw ++ rawText set := by
  induction set generalizing raw with
  | nil => exact String.append_empty.symm
  | cons t set ih =>
    have hmore : raw ++ t.leading ++ t.text ≠ "" := by simp [String.append_eq_empty_iff, hraw]
    rw [List.foldl_cons, addToSet, String.isEmpty_eq_false_iff.mpr hraw, if_neg Bool.false_ne_true, ih hmore]
    simp [rawText, String.append_assoc]

/-- The set of a loop is read back. -/
theorem setText_written {set : List Token} {raw : String} (h : SetWritten set raw) {closed : Token}
    (hclose : closed.isOp .closeParen = true) (rest : List Token) :
    ∃ hlt, setText 0 "" (set ++ closed :: rest) = some (raw, ⟨rest, hlt⟩) := by
  have hraw : set.foldl addToSet "" = raw := by
    rw [h.raw_eq]
    cases set with
    | nil => rfl
    | cons t set => exact foldl_addToSet (h.solid t set rfl) set
  have hset := setOf_append hclose h.oneLine (by simpa using h.opens : ∀ us, us <+: set → 0 ≤ (0 : Nat) + rise us)
    (by simpa using h.closes) "" rest
  rw [hraw] at hset
  obtain ⟨⟨raw', rest', hlt⟩, htext, heq⟩ := Option.map_eq_some_iff.mp hset
  dsimp only at heq
  cases heq
  exact ⟨hlt, htext⟩

/-- The characters of an item are gathered. -/
theorem setItemsFrom_item {cs : List Char} (quoted : Bool)
    (hcs : ∀ as c bs, cs = as ++ c :: bs → separatesItems c = true → (as.count '"' + quoted.toNat) % 2 = 1)
    (word rest : List Char) :
    setItemsFrom quoted word (cs ++ rest) =
      setItemsFrom (decide ((cs.count '"' + quoted.toNat) % 2 = 1)) (cs.reverse ++ word) rest := by
  induction cs generalizing quoted word with
  | nil => cases quoted <;> rfl
  | cons c cs ih =>
    rw [List.cons_append, setItemsFrom, List.reverse_cons, List.append_assoc, List.singleton_append]
    by_cases hquote : c = '"'
    · subst hquote
      rw [if_pos (beq_self_eq_true _), ih _ fun as d bs heq hd => ?_, List.count_cons_self, parity_flip]
      have := hcs ('"' :: as) d bs (congrArg ('"' :: ·) heq) hd
      rwa [List.count_cons_self, parity_flip] at this
    · have hkeep : ((!quoted) && separatesItems c) = false := by
        cases hc : separatesItems c with
        | false => exact Bool.and_false _
        | true =>
          have hopen := hcs [] c cs rfl hc
          cases quoted with
          | true => rfl
          | false => cases hopen
      rw [if_neg (by simpa using hquote), hkeep, if_neg Bool.false_ne_true, ih _ fun as d bs heq hd => ?_,
        List.count_cons_of_ne hquote]
      have := hcs (c :: as) d bs (congrArg (c :: ·) heq) hd
      rwa [List.count_cons_of_ne hquote] at this

theorem IsItem.gathered {cs : List Char} (h : IsItem cs) (rest : List Char) :
    setItemsFrom false [] (cs ++ rest) = setItemsFrom (decide (cs.count '"' % 2 = 1)) cs.reverse rest := by
  have hitem := setItemsFrom_item false h.2 [] rest
  rwa [List.append_nil] at hitem

/-- The items of a set are read back. -/
theorem setItems_divided {raw : String} {items : List String} (h : Divided raw.toList items) :
    setItems raw = items := by
  have hquote : ∀ c, separatesItems c = true → (c == '"') = false := by
    intro c hc
    rw [beq_eq_false_iff_ne]
    rintro rfl
    cases hc
  rw [setItems]
  generalize raw.toList = cs at h
  induction h with
  | nil => rfl
  | skip hc _ ih =>
    rw [setItemsFrom, hquote _ hc, hc]
    exact ih
  | last hitem =>
    have hword := hitem.gathered []
    rw [List.append_nil] at hword
    rw [hword, setItemsFrom, List.isEmpty_reverse, List.isEmpty_eq_false_iff.mpr hitem.1, List.reverse_reverse]
    rfl
  | item hitem hquotes hc _ ih =>
    rw [hitem.gathered, hquotes, setItemsFrom, hquote _ hc, hc, List.isEmpty_reverse,
      List.isEmpty_eq_false_iff.mpr hitem.1, List.reverse_reverse]
    exact congrArg (String.ofList _ :: ·) ih

/-! ### Heads -/

theorem VariableWritten.letter {letter : Char} {w : String}
    (hw : w.toList = ['%', letter] ∧ letter ≠ '%' ∨ w.toList = ['%', '%', letter]) :
    w.toList.head? = some '%' ∧ loopLetter? w = some letter := by
  obtain ⟨hw, hne⟩ | hw := hw
  · exact ⟨by rw [hw]; rfl, by simp [loopLetter?, hw, hne]⟩
  · exact ⟨by rw [hw]; rfl, by simp [loopLetter?, hw]⟩

theorem SaysWord.expectKeyword {keyword : String} (h : SaysWord run w) (hw : w.map Char.toUpper = keyword)
    (hrest : Unglued rest) (lineEnd : Nat) (what : Expected) :
    ∃ hlt, expectKeyword lineEnd what keyword (run ++ rest) = .ok ⟨rest, hlt⟩ := by
  obtain ⟨start, hlt, hword⟩ := h.expectWord hrest lineEnd what
  refine ⟨hlt, ?_⟩
  rw [Parser.expectKeyword, hword, Except.bind_ok]
  exact if_pos (beq_iff_eq.mpr hw)

theorem KindWritten.unglued {kind : LoopKind} (h : KindWritten ts kind) (hrest : Unglued rest) :
    Unglued (ts ++ rest) := by
  cases h with
  | items => exact hrest
  | switch _ hts | rooted _ _ hts => exact hts.unglued hrest
  | @optioned ts v options t _ hts _ hspace =>
    rw [List.append_assoc]
    refine hts.unglued fun u us heq => ?_
    cases heq
    simp [isGlued, hspace]

/-- A loop head is read part by part. -/
theorem loopHead_eq_ok {ts ts1 ts2 ts3 us ts4 : List Token} {word named : Word} {kind : LoopKind} {letter : Char}
    {opened : Token} {raw : String} {h1 h3 h4 h5 h6} (hword : expectWord lineEnd .forWord ts = .ok (word, ⟨ts1, h1⟩))
    (hkind : kindOf .items ts1 = (kind, ts2))
    (hnamed : expectWord lineEnd .loopVariable ts2 = .ok (named, ⟨ts3, h3⟩))
    (hletter : loopLetter? named.text = some letter)
    (hin : expectKeyword lineEnd .inWord "IN" ts3 = .ok ⟨opened :: us, h4⟩) (hopen : opened.isOp .openParen = true)
    (hset : setText 0 "" us = some (raw, ⟨ts4, h5⟩))
    (hdo : expectKeyword lineEnd .doWord "DO" ts4 = .ok ⟨rest, h6⟩) :
    bare (loopHead lineEnd ts) = .ok (⟨letter, kind, setItems raw, raw⟩, rest) := by
  obtain ⟨rfl, rfl⟩ := Prod.mk.inj hkind
  rw [loopHead, hword, Except.bind_ok]
  dsimp only
  rw [hnamed, Except.bind_ok]
  dsimp only
  rw [hletter]
  dsimp only
  rw [hin, Except.bind_ok]
  simp only [hopen, hset, hdo, if_true, Except.bind_ok]
  rfl

/-- **The head of a loop is read back**, before anything that is not glued to it. -/
theorem loopHead_written {kept : LoopHead} (h : ForWritten ts kept) (hrest : Unglued rest) :
    keywordAt (ts ++ rest) = some "FOR" ∧ bare (loopHead lineEnd (ts ++ rest)) = .ok (kept, rest) := by
  obtain ⟨hword, hw, hkind, hnamed, hin, hv, hopen, hset, hitems, hclose, hdo, hu⟩ := h
  rename_i word w switch named inWord v set doWord u opened closed
  obtain ⟨hnamed, hspace, hplain, hletter⟩ := hnamed
  obtain ⟨hpercent, hletter⟩ := VariableWritten.letter hletter
  -- what follows each part does not go on with its last word
  have hparen : Unglued (opened :: (set ++ closed :: (doWord ++ rest))) := by
    intro t us heq
    cases heq
    exact isGlued_of_isOperator (isOperator_of_isOp hopen)
  have hinEnds := hin.unglued hparen
  have hnamedEnds := hnamed.unglued hspace (inWord ++ opened :: (set ++ closed :: (doWord ++ rest)))
  have hwordEnds := hkind.unglued hnamedEnds
  obtain ⟨_, _, hreadWord⟩ := hword.expectWord hwordEnds lineEnd .forWord
  have hreadKind := kindOf_written hkind hnamed hpercent hplain hnamedEnds hinEnds
  obtain ⟨_, _, hreadNamed⟩ := hnamed.expectWord hinEnds lineEnd .loopVariable
  obtain ⟨_, hreadIn⟩ := hin.single.expectKeyword hv hparen lineEnd .inWord
  obtain ⟨_, hreadSet⟩ := setText_written hset hclose (doWord ++ rest)
  obtain ⟨_, hreadDo⟩ := hdo.expectKeyword hu hrest lineEnd .doWord
  have hall : word ++ (switch ++ (named ++ (inWord ++ opened :: (set ++ closed :: doWord)))) ++ rest =
      word ++ (switch ++ (named ++ (inWord ++ opened :: (set ++ closed :: (doWord ++ rest))))) := by simp
  rw [hall]
  refine ⟨hword.keywordAt hw hwordEnds, ?_⟩
  rw [loopHead_eq_ok hreadWord hreadKind hreadNamed hletter hreadIn hopen hreadSet hreadDo, setItems_divided hitems]

end

end BatchShell.Parser
