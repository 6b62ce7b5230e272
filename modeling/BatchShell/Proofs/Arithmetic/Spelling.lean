import Mathlib.Data.List.Chain
import BatchShell.Proofs.Arithmetic.Assignments
import BatchShell.Proofs.Arithmetic.Rendering
import BatchShell.Proofs.Numeral.Constants

/-!
# Expressions as text

Tokens are spelled one after the other, with white space and double quotes between them wherever one likes
(`Spells`). They are found again in the text unless two of them run together (`Apart`), which those of an expression
never do (`Renders.apart`): no two words meet, and no operator meets an assignment sign.

* `Spells.tokens`: the tokens of a spelling are those that were spelled.
* `evaluate_eq_value`: the text of an expression, with the parentheses it needs or with more, has the value of the
  expression, and leaves the variables that its assignments make.
* `exists_text_of_startOf_eq_error`: which texts of variables break a computation off.
-/
namespace BatchShell.Arithmetic

/-! ## Spellings -/

/-- How an operator is spelled. -/
def BinaryOp.spelling : BinaryOp → List Char
  | .or => ['|']
  | .xor => ['^']
  | .and => ['&']
  | .shiftLeft => ['<', '<']
  | .shiftRight => ['>', '>']
  | .add => ['+']
  | .sub => ['-']
  | .mul => ['*']
  | .div => ['/']
  | .rem => ['%']

/-- How a token is spelled. Numbers are decimal, and an assignment sign follows the operator that it applies. -/
def Token.spelling : Token → List Char
  | .number n => (toString n).toList
  | .name text => text.toList
  | .binary op => op.spelling
  | .assign none => ['=']
  | .assign (some op) => op.spelling ++ ['=']
  | .not => ['!']
  | .complement => ['~']
  | .openParen => ['(']
  | .closeParen => [')']
  | .comma => [',']

/-- A text that spells tokens, with white space and quotes before, between and after them. -/
inductive Spells : List Token → List Char → Prop where
  | nil : Spells [] []
  | space {c ts cs} : (Text.isBlank c || c == '"') = true → Spells ts cs → Spells ts (c :: cs)
  | token (t : Token) {ts cs} : Spells ts cs → Spells (t :: ts) (t.spelling ++ cs)

/-- Nothing needs to stand between the tokens. -/
theorem spells_flatMap (ts : List Token) : Spells ts (ts.flatMap Token.spelling) := by
  induction ts with
  | nil => exact .nil
  | cons t ts ih => exact .token t ih

/-! ## Characters -/

/-- The code points of white space. -/
def blankCodes : List Nat :=
  [9, 10, 11, 12, 13, 0x20, 0x85, 0xA0, 0x1680, 0x2000, 0x2001, 0x2002, 0x2003, 0x2004, 0x2005, 0x2006, 0x2007, 0x2008,
    0x2009, 0x200A, 0x2028, 0x2029, 0x202F, 0x205F, 0x3000]

/-- The characters of operators. -/
def signs : List Char := ['|', '^', '&', '<', '>', '+', '-', '*', '/', '%', '=', '!', '~']

/-- The characters that are not in words, white space apart. -/
def marks : List Char := signs ++ ['(', ')', ',', '"']

/-- A character that ends a word. -/
def endsWord (c : Char) : Bool := !inName c && !c.isAlphanum

theorem endsWord_iff {c : Char} : endsWord c = true ↔ inName c = false ∧ c.isAlphanum = false := by simp [endsWord]

theorem endsWord_of_mem_marks {c : Char} (h : c ∈ marks) : endsWord c = true := by
  have hall : marks.all endsWord = true := by decide +kernel
  exact List.all_eq_true.mp hall c h

theorem inRanges_eq (ranges : Array (Nat × Nat)) (c : Char) :
    Text.inRanges ranges c = ranges.toList.any fun (first, last) => first ≤ c.toNat && c.toNat ≤ last := by
  rw [Array.any_toList]
  rfl

theorem endsWord_of_isBlank {c : Char} (h : Text.isBlank c = true) : endsWord c = true := by
  have hall : blankCodes.all (fun n => endsWord (Char.ofNat n)) = true := by
    simp only [endsWord, inName, Text.isLetterOrNumeral, Text.isLetter, Text.isNumeral, inRanges_eq]
    decide +kernel
  have hmem : c.toNat ∈ blankCodes := by
    simp only [Text.isBlank, Bool.or_eq_true, Bool.and_eq_true, decide_eq_true_eq, beq_iff_eq] at h
    simp only [blankCodes, List.mem_cons, List.not_mem_nil, or_false]
    omega
  simpa using List.all_eq_true.mp hall c.toNat hmem

/-- What can stand in a word is neither white space nor a mark. -/
theorem inName_spec {c : Char} (h : inName c = true) : Text.isBlank c = false ∧ c ∉ marks := by
  have hword : endsWord c ≠ true := by simp [endsWord_iff, h]
  exact ⟨Bool.eq_false_iff.mpr fun hblank => hword (endsWord_of_isBlank hblank),
    fun hmark => hword (endsWord_of_mem_marks hmark)⟩

theorem inName_of_isDigit {c : Char} (h : c.isDigit = true) : inName c = true := by
  have hlow : c.toNat < 128 := by
    have hrange : 48 ≤ c.toNat ∧ c.toNat ≤ 57 := by simpa [Char.isDigit, UInt32.le_iff_toNat_le] using h
    omega
  simp [inName, Text.isLetterOrNumeral, Text.isNumeral, hlow, h]

theorem inName_of_letter {c : Char} (h : (Text.isLetter c || c == '_') = true) : inName c = true := by
  rw [inName, Text.isLetterOrNumeral]
  rcases Bool.or_eq_true_iff.mp h with hletter | hletter <;> simp [hletter]

/-- What a name starts with, and what it is made of. -/
theorem isName_cons {text : String} (h : isName text = true) :
    ∃ c cs, text.toList = c :: cs ∧ (Text.isLetter c || c == '_') = true ∧ ∀ d ∈ cs, inName d = true := by
  unfold isName at h
  split at h
  · cases h
  · rename_i c cs htext
    obtain ⟨hfirst, hrest⟩ := Bool.and_eq_true_iff.mp h
    exact ⟨c, cs, htext, hfirst, List.all_eq_true.mp hrest⟩

/-- What a number starts with, and what it is made of. -/
theorem toString_cons {n : Int32} (h : 0 ≤ n.toInt) :
    ∃ c cs, (toString n).toList = c :: cs ∧ c.isDigit = true ∧ ∀ d ∈ cs, d.isDigit = true := by
  have hdigits : ∀ d ∈ (toString n).toList, d.isDigit = true := by
    rw [Numeral.toList_toString, if_pos h]
    exact fun d => Nat.isDigit_of_mem_toDigits (by decide) (by decide)
  have hne : (toString n).toList ≠ [] := by
    rw [Numeral.toList_toString, if_pos h]
    exact Nat.toDigits_ne_nil
  obtain ⟨c, cs, heq⟩ := List.exists_cons_of_ne_nil hne
  rw [heq] at hdigits ⊢
  exact ⟨c, cs, rfl, hdigits c List.mem_cons_self, fun d hd => hdigits d (List.mem_cons_of_mem c hd)⟩

/-! ## Tokens that can stand together -/

/-- Is the token a number or a name? -/
def Token.isWord : Token → Bool
  | .number _ | .name _ => true
  | _ => false

/-- May a token stand right before another? -/
def Apart : Token → Token → Prop
  | .binary _, .assign _ => False
  | t, u => ¬(t.isWord = true ∧ u.isWord = true)

theorem Apart.not_words {t u : Token} (h : Apart t u) : ¬(t.isWord = true ∧ u.isWord = true) := by
  unfold Apart at h
  split at h
  · exact h.elim
  · exact h

/-- Where only one of two tokens is a word, and the second is no assignment sign, they do not run together. -/
theorem Apart.of_left {t u : Token} (ht : t.isWord = false) (hu : ∀ op, u ≠ .assign op) : Apart t u := by
  unfold Apart
  split
  · exact hu _ rfl
  · simp [ht]

theorem Apart.of_right {t u : Token} (hword : u.isWord = false) (hu : ∀ op, u ≠ .assign op) : Apart t u := by
  unfold Apart
  split
  · exact hu _ rfl
  · simp [hword]

/-- A token that can be read: numbers are not negative, and names are names. -/
def Token.Legible : Token → Prop
  | .number n => 0 ≤ n.toInt
  | .name text => isName text = true
  | _ => True

/-- A word that can be read starts with a character of words. -/
theorem spelling_word {t : Token} (hword : t.isWord = true) (h : t.Legible) :
    ∃ c cs, t.spelling = c :: cs ∧ inName c = true := by
  cases t with
  | number n =>
    obtain ⟨c, cs, htext, hfirst, -⟩ := toString_cons h
    exact ⟨c, cs, htext, inName_of_isDigit hfirst⟩
  | name text =>
    obtain ⟨c, cs, htext, hfirst, -⟩ := isName_cons h
    exact ⟨c, cs, htext, inName_of_letter hfirst⟩
  | _ => cases hword

/-- Any other token but a parenthesis or a comma starts with a sign. -/
theorem spelling_sign {t : Token} (hword : t.isWord = false) (h : t ∉ [.openParen, .closeParen, .comma]) :
    ∃ c cs, t.spelling = c :: cs ∧ c ∈ signs := by
  cases t with
  | number n => cases hword
  | name text => cases hword
  | binary op => cases op <;> exact ⟨_, _, rfl, by decide⟩
  | assign op =>
    cases op with
    | none => exact ⟨_, _, rfl, by decide⟩
    | some op => cases op <;> exact ⟨_, _, rfl, by decide⟩
  | not => exact ⟨_, _, rfl, by decide⟩
  | complement => exact ⟨_, _, rfl, by decide⟩
  | _ => simp at h

theorem spelling_mark {t : Token} (hword : t.isWord = false) : ∃ c cs, t.spelling = c :: cs ∧ c ∈ marks := by
  by_cases h : t ∈ [.openParen, .closeParen, .comma]
  · simp only [List.mem_cons, List.not_mem_nil, or_false] at h
    rcases h with rfl | rfl | rfl <;> exact ⟨_, _, rfl, by decide⟩
  · obtain ⟨c, cs, hspelling, hsign⟩ := spelling_sign hword h
    exact ⟨c, cs, hspelling, List.mem_append_left _ hsign⟩

/-! ## Reading a token -/

theorem operator?_binary (op : BinaryOp) {cs : List Char} (h : ∀ us, cs ≠ '=' :: us) :
    operator? (op.spelling ++ cs) = some (.binary op, op.spelling.length) := by
  cases cs with
  | nil => cases op <;> rfl
  | cons c cs =>
    cases op <;> simp [operator?, BinaryOp.spelling]

theorem operator?_assign (op : BinaryOp) (cs : List Char) :
    operator? (op.spelling ++ '=' :: cs) = some (.assign (some op), op.spelling.length + 1) := by
  cases op <;> rfl

/-- A sign is not taken for anything but an operator. -/
theorem tokens_operator {t : Token} (hword : t.isWord = false) (h : t ∉ [.openParen, .closeParen, .comma])
    {cs : List Char} (hop : operator? (t.spelling ++ cs) = some (t, t.spelling.length)) :
    tokens (t.spelling ++ cs) = (do .ok (t :: (← tokens cs))) := by
  obtain ⟨c, us, hspelling, hsign⟩ := spelling_sign hword h
  have hall : signs.all (fun c => !(Text.isBlank c || c == '"') && !c.isDigit && !(Text.isLetter c || c == '_') &&
      !(c == '(') && !(c == ')') && !(c == ',')) = true := by decide +kernel
  have htests := List.all_eq_true.mp hall c hsign
  simp only [Bool.and_eq_true, Bool.not_eq_true'] at htests
  obtain ⟨⟨⟨⟨⟨hspace, hdigit⟩, hletter⟩, hopen⟩, hclose⟩, hcomma⟩ := htests
  rw [hspelling, List.cons_append] at hop ⊢
  rw [tokens.eq_def]
  dsimp only
  rw [hspace, hdigit, hletter, hopen, hclose, hcomma, hop]
  simp

/-- A word reaches to where its characters end. -/
theorem span_append {test : Char → Bool} {word cs : List Char} (hword : ∀ c ∈ word, test c = true)
    (hends : ∀ c us, cs = c :: us → test c = false) :
    (word ++ cs).takeWhile test = word ∧ (word ++ cs).dropWhile test = cs := by
  have hcs : cs.takeWhile test = [] ∧ cs.dropWhile test = cs := by
    cases cs with
    | nil => exact ⟨rfl, rfl⟩
    | cons c cs => simp [hends c cs rfl]
  rw [List.takeWhile_append_of_pos hword, List.dropWhile_append_of_pos hword, hcs.1, hcs.2]
  exact ⟨List.append_nil word, rfl⟩

section

variable {cs : List Char} (hends : ∀ c us, cs = c :: us → endsWord c = true)

include hends

theorem tokens_number {n : Int32} (h : 0 ≤ n.toInt) :
    tokens ((toString n).toList ++ cs) = (do .ok (.number n :: (← tokens cs))) := by
  obtain ⟨d, ds, htext, hd, hds⟩ := toString_cons h
  have hname := inName_spec (inName_of_isDigit hd)
  have hquote : (d == '"') = false := beq_false_of_ne fun heq => hname.2 (heq ▸ by decide)
  have hspan : (ds ++ cs).takeWhile Char.isAlphanum = ds ∧ (ds ++ cs).dropWhile Char.isAlphanum = cs :=
    span_append (fun c hc => by simp [Char.isAlphanum, hds c hc])
      (fun c us heq => (endsWord_iff.mp (hends c us heq)).2)
  have hvalue : Numeral.parse32 (String.ofList (d :: ds)) = .ok (some n) := by
    rw [← htext, String.ofList_toList, Numeral.parse32_toString]
  rw [htext, List.cons_append, tokens.eq_def]
  dsimp only
  rw [hname.1, hquote, if_neg (by decide), if_pos hd, hspan.1, hspan.2, hvalue]

theorem tokens_name {text : String} (h : isName text = true) :
    tokens (text.toList ++ cs) = (do .ok (.name text :: (← tokens cs))) := by
  obtain ⟨c, rest, htext, hfirst, hrest⟩ := isName_cons h
  have hname := inName_spec (inName_of_letter hfirst)
  have hquote : (c == '"') = false := beq_false_of_ne fun heq => hname.2 (heq ▸ by decide)
  have hspan : (rest ++ cs).takeWhile inName = rest ∧ (rest ++ cs).dropWhile inName = cs :=
    span_append hrest (fun c us heq => (endsWord_iff.mp (hends c us heq)).1)
  rw [htext, List.cons_append, tokens.eq_def]
  dsimp only
  rw [hname.1, hquote, if_neg (by decide), isDigit_eq_false hfirst,
    if_neg (by decide), if_pos hfirst, hspan.1, hspan.2, ← htext, String.ofList_toList]

end

/-- A token that ends where something else starts is read. -/
theorem tokens_spelling {t : Token} (h : t.Legible) {cs : List Char}
    (hends : t.isWord = true → ∀ c us, cs = c :: us → endsWord c = true)
    (hassign : ∀ op us, t = .binary op → cs ≠ '=' :: us) :
    tokens (t.spelling ++ cs) = (do .ok (t :: (← tokens cs))) := by
  cases t with
  | number n => exact tokens_number (hends rfl) h
  | name text => exact tokens_name (hends rfl) h
  | binary op => exact tokens_operator rfl (by simp) (operator?_binary op fun us => hassign op us rfl)
  | assign op =>
    cases op with
    | none => exact tokens_operator rfl (by simp) rfl
    | some op =>
      refine tokens_operator rfl (by simp) ?_
      rw [Token.spelling, List.append_assoc, List.length_append]
      exact operator?_assign op cs
  | not => exact tokens_operator rfl (by simp) rfl
  | complement => exact tokens_operator rfl (by simp) rfl
  | openParen => rw [Token.spelling, List.singleton_append, tokens.eq_def]; rfl
  | closeParen => rw [Token.spelling, List.singleton_append, tokens.eq_def]; rfl
  | comma => rw [Token.spelling, List.singleton_append, tokens.eq_def]; rfl

namespace Spells

variable {ts : List Token} {cs : List Char}

/-- Where no word starts, a word ends. -/
theorem endsWord (h : Spells ts cs) (hts : ∀ t us, ts = t :: us → t.isWord = false) (c : Char) (us : List Char)
    (hcs : cs = c :: us) : endsWord c = true := by
  cases h with
  | nil => cases hcs
  | space hspace _ =>
    obtain ⟨rfl, rfl⟩ := List.cons.inj hcs
    rcases Bool.or_eq_true_iff.mp hspace with hblank | hquote
    · exact endsWord_of_isBlank hblank
    · exact endsWord_of_mem_marks (by simp_all [marks])
  | token t _ =>
    obtain ⟨d, ds, hspelling, hmark⟩ := spelling_mark (hts t _ rfl)
    rw [hspelling] at hcs
    obtain ⟨rfl, -⟩ := List.cons.inj hcs
    exact endsWord_of_mem_marks hmark

/-- An assignment sign is not found where none was spelled. -/
theorem ne_assign (h : Spells ts cs) (hlegible : ∀ t ∈ ts, t.Legible) (hts : ∀ op us, ts ≠ .assign op :: us)
    (us : List Char) : cs ≠ '=' :: us := by
  intro hcs
  cases h with
  | nil => cases hcs
  | space hspace _ =>
    obtain ⟨rfl, -⟩ := List.cons.inj hcs
    cases hspace
  | token t _ =>
    have hword : t.isWord = false := by
      refine Bool.eq_false_iff.mpr fun hword => ?_
      obtain ⟨c, _, hspelling, hname⟩ := spelling_word hword (hlegible t List.mem_cons_self)
      rw [hspelling] at hcs
      obtain ⟨rfl, -⟩ := List.cons.inj hcs
      cases hname
    cases t with
    | assign op => exact hts _ _ rfl
    | binary op => cases op <;> cases hcs
    | number n => cases hword
    | name text => cases hword
    | _ => cases hcs

/-- **The tokens of a spelling are those that were spelled.** -/
theorem tokens (h : Spells ts cs) (hlegible : ∀ t ∈ ts, t.Legible) (hapart : ts.IsChain Apart) :
    tokens cs = .ok ts := by
  induction h with
  | nil => rw [tokens.eq_def]
  | space hspace _ ih =>
    rw [tokens.eq_def]
    dsimp only
    rw [if_pos hspace, ih hlegible hapart]
  | @token t ts cs h ih =>
    have hnext : ∀ u us, ts = u :: us → Apart t u := by
      rintro u us rfl
      exact (List.isChain_cons_cons.mp hapart).1
    have hrest := ih (fun u hu => hlegible u (List.mem_cons_of_mem t hu)) (List.isChain_of_isChain_cons hapart)
    rw [tokens_spelling (hlegible t List.mem_cons_self) ?_ ?_, hrest]
    · rfl
    · intro hword
      refine h.endsWord ?_
      rintro u us rfl
      exact Bool.eq_false_iff.mpr fun hu => (hnext u us rfl).not_words ⟨hword, hu⟩
    · rintro op us rfl
      refine h.ne_assign (fun u hu => hlegible u (List.mem_cons_of_mem _ hu)) ?_ us
      rintro sign us rfl
      exact hnext _ us rfl

end Spells

namespace Renders

variable {p : Nat} {e : Expr} {ts : List Token}

/-- The tokens of an expression can be read. -/
theorem legible (h : Renders p e ts) : ∀ t ∈ ts, t.Legible := by
  induction h with
  | const n =>
    have hvalue : 0 ≤ (Int32.ofNat n).toInt := by
      rw [Int32.toInt_ofNat_of_lt n.isLt]
      exact Int.natCast_nonneg _
    intro t ht
    obtain rfl := List.mem_singleton.mp ht
    exact hvalue
  | name x => simpa [Token.Legible] using x.valid
  | parens _ ih => simpa [Arithmetic.parens, Token.Legible, or_imp, forall_and] using ih
  | unary op _ ih => cases op <;> simpa [UnaryOp.token, Token.Legible] using ih
  | binary op _ _ iha ihb => simpa [Token.Legible, or_imp, forall_and] using ⟨iha, ihb⟩
  | assign x op _ ih => simpa [Token.Legible] using ⟨x.valid, ih⟩
  | comma _ _ iha ihb => simpa [Token.Legible, or_imp, forall_and] using ⟨iha, ihb⟩
  | looser _ ih => exact ih

theorem head_ne_assign (h : Renders p e ts) : ∀ t ∈ ts.head?, ∀ op, t ≠ .assign op := by
  induction h with
  | unary sign _ _ => cases sign <;> simp [UnaryOp.token]
  | binary op h _ ih _ =>
    rw [List.head?_append_of_ne_nil _ h.ne_nil]
    exact ih
  | comma h _ ih _ =>
    rw [List.head?_append_of_ne_nil _ h.ne_nil]
    exact ih
  | looser _ ih => exact ih
  | _ => simp [Arithmetic.parens]

/-- Two writings with an operator or a comma between them do not run together. -/
theorem join_apart {q : Nat} {f : Expr} {us : List Token} (hts : ts.IsChain Apart) (hf : Renders q f us)
    (hus : us.IsChain Apart) {t : Token} (hword : t.isWord = false) (hassign : ∀ op, t ≠ .assign op) :
    (ts ++ t :: us).IsChain Apart := by
  have hright : (t :: us).IsChain Apart := hus.cons fun u hu => .of_left hword (hf.head_ne_assign u hu)
  refine hts.append hright fun x _ y hy => ?_
  cases hy
  exact .of_right hword hassign

/-- No two tokens of an expression run together. -/
theorem apart (h : Renders p e ts) : ts.IsChain Apart := by
  induction h with
  | const n => exact .singleton _
  | name x => exact .singleton _
  | @parens e ts h ih =>
    have hclosed : (ts ++ [Token.closeParen]).IsChain Apart :=
      ih.append (.singleton _) fun x _ y hy => by
        cases hy
        exact .of_right rfl (by simp)
    refine hclosed.cons fun u hu => .of_left rfl (h.head_ne_assign u ?_)
    rwa [List.head?_append_of_ne_nil _ h.ne_nil] at hu
  | unary op h ih => exact ih.cons fun u hu => .of_left (by cases op <;> rfl) (h.head_ne_assign u hu)
  | binary op _ hb iha ihb => exact join_apart iha hb ihb rfl (by simp)
  | assign x op h ih =>
    refine (ih.cons fun u hu => .of_left rfl (h.head_ne_assign u hu)).cons fun u hu => ?_
    cases hu
    simp [Apart, Token.isWord]
  | comma _ hb iha ihb => exact join_apart iha hb ihb rfl (by simp)
  | looser _ ih => exact ih

end Renders

/-- Reading a variable breaks off on a text that takes a second minus sign to negate the least number of 64 bits. -/
theorem exists_text_of_startOf_eq_error {env : Environment} {name : String} {why : Crash}
    (h : startOf env name = .error why) : why = .overflow ∧ ∃ text cs, env.get? name = some text ∧
      (Text.trim text).toList = '-' :: cs ∧ Numeral.Magnitude .minus cs (-9223372036854775808) := by
  unfold startOf at h
  split at h
  · cases h
  · rename_i text htext
    split at h
    · rename_i hread
      cases h
      obtain ⟨rfl, cs, hminus, hmagnitude⟩ := Numeral.parse32_eq_error_iff.mp hread
      exact ⟨rfl, text, cs, htext, hminus, hmagnitude⟩
    · cases h
    · cases h

/-- **The text of an expression, with the parentheses it needs or with more, has the value of the expression.** It
ends in a division by zero where the expression has no value, or breaks off at a variable of the expression whose text
negates the least number of 64 bits. Afterwards the variables assigned up to that point have the decimal texts of their
values; other variables, outer scopes and the depth are as they were. -/
theorem evaluate_eq_value (e : Expr) (env : Environment) :
    let computed := e.value (startOf env) []
    (Renders 0 e e.full ∧ Renders 0 e (e.minimal 0) ∧
      ∀ ts, Renders 0 e ts → (e.minimal 0).count .openParen ≤ ts.count .openParen) ∧
    (∀ stop, computed.1 = .error stop → stop = .fault .divideByZero ∨
      stop = .crashed .overflow ∧ ∃ x ∈ e.idents, ∃ value cs, env.get? x.text = some value ∧
        (Text.trim value).toList = '-' :: cs ∧ Numeral.Magnitude .minus cs (-9223372036854775808)) ∧
    ∀ ts text, Renders 0 e ts → Spells ts text.toList →
      (evaluate text env).1 = computed.1 ∧
      (∀ name, (evaluate text env).2.get? name =
        match computed.2.find? name with
        | some v => some (toString v)
        | none => env.get? name) ∧
      (evaluate text env).2.depth = env.depth ∧ (evaluate text env).2.frames.tail = env.frames.tail := by
  refine ⟨⟨(Renders.full e).mono (Nat.zero_le 9), .minimal e (Nat.zero_le 9), fun ts h => h.minimal_le⟩,
    fun stop hstop => ?_, fun ts text hts htext => ?_⟩
  · obtain hdivision | ⟨why, rfl, x, hx, hread⟩ := e.halts_of_value (Prod.ext hstop rfl)
    · exact .inl hdivision
    · obtain ⟨rfl, htext⟩ := exists_text_of_startOf_eq_error hread
      exact .inr ⟨rfl, x, hx, htext⟩
  have hevaluate : evaluate text env = e.run.run env := by
    unfold evaluate
    rw [htext.tokens hts.legible hts.apart]
    exact congrArg (fun c : Computing Int32 => c.run env) hts.evaluateTokens
  obtain ⟨hresult, hafter⟩ := Prod.ext_iff.mp (hevaluate.trans (e.run_value env []))
  have hbelow := evaluate_sameBelow text env
  refine ⟨hresult, fun name => ?_, hbelow.depth, hbelow.below⟩
  rw [hafter]
  exact Ledger.get?_perform _ env name

/-- Two assignments, and then a division by the difference of the first variable and its value. -/
def Expr.drained : Expr :=
  let a : Ident := ⟨"a", by decide⟩
  let b : Ident := ⟨"b", by decide⟩
  .comma
    (.comma (.assign a none (.const 5))
      (.assign b (some .sub)
        (.binary .rem (.binary .mul (.name a) (.binary .add (.const 2) (.const 3))) (.const 4))))
    (.binary .div (.name b) (.binary .sub (.name a) (.const 5)))

/-- What was assigned before the fault stays: here a product and a remainder of one level, from left to right, were
taken from a variable in hexadecimal. -/
theorem evaluate_eq_value_drained :
    let after := evaluate "a=5,b-=a*(2+3)%4,b/(a-5)" (.ofList [("B", "0x10")])
    after.1 = .error (.fault .divideByZero) ∧ after.2.get? "A" = some "5" ∧ after.2.get? "b" = some "15" ∧
      after.2.get? "c" = none := by
  have htext : "a=5,b-=a*(2+3)%4,b/(a-5)".toList = (Expr.drained.minimal 0).flatMap Token.spelling := by
    decide +kernel
  have hspells : Spells (Expr.drained.minimal 0) "a=5,b-=a*(2+3)%4,b/(a-5)".toList := htext ▸ spells_flatMap _
  obtain ⟨hresult, hvariables, -⟩ := (evaluate_eq_value .drained (.ofList [("B", "0x10")])).2.2 _ _
    (.minimal _ (Nat.zero_le 9)) hspells
  have hcomputed : let computed := Expr.drained.value (startOf (.ofList [("B", "0x10")])) []
      computed.1 = .error (.fault .divideByZero) ∧ computed.2.find? "A" = some 5 ∧ computed.2.find? "b" = some 15 ∧
        computed.2.find? "c" = none := by decide +kernel
  obtain ⟨hstopped, ha, hb, hc⟩ := hcomputed
  refine ⟨hresult.trans hstopped, (hvariables "A").trans ?_, (hvariables "b").trans ?_, (hvariables "c").trans ?_⟩
  · rw [ha]
    decide
  · rw [hb]
    decide
  · rw [hc]
    decide +kernel

/-- A variable that stands for no constant does not count as zero if it breaks the reader off, and what was assigned
before stays. -/
theorem evaluate_breaks_off_at_variable :
    let after := evaluate "a=5,X" (.ofList [("X", "--9223372036854775808")])
    after.1 = .error (.crashed .overflow) ∧ after.2.get? "a" = some "5" ∧
      ∀ v, ¬ Numeral.Constant .none "--9223372036854775808" v := by
  refine ⟨by decide +kernel, by decide +kernel, fun v hv => ?_⟩
  exact hv.hasSecondSign_iff.mp (by decide) rfl

end BatchShell.Arithmetic
