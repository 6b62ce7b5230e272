import BatchShell.Token.Basic

/-!
# Dividing a line into tokens

Words end at white space, operators, redirections and opening parentheses. Double quotes protect
everything up to the closing quote or the end of the line, and a caret outside quotes protects the next
character. A closing parenthesis is an operator only while an opening one is unmatched.

* `WordMode.next` is the character-level rule for words.
* `Token.scan` lists the tokens of a line.
-/
namespace BatchShell

inductive WordMode where
  /-- Outside quotes. -/
  | plain
  /-- Inside a quoted region. -/
  | quoted
  /-- Right after a caret. -/
  | escaped
  deriving DecidableEq

def endsWord (c : Char) : Bool :=
  c == ' ' || c == '\t' || c == '\r' || c == '\n' || c == '&' || c == '|' || c == '<' || c == '>' ||
  c == '('

/-- The mode after reading `c`, or `none` when the word ends before `c`. No word holds a line feed, and
inside a block (`inBlock`) a bare closing parenthesis ends a word. -/
def WordMode.next (inBlock : Bool) (mode : WordMode) (c : Char) : Option WordMode :=
  if c == '\n' then none
  else match mode with
    | .quoted => some (if c == '"' then .plain else .quoted)
    | .escaped => some .plain
    | .plain =>
      if c == '"' then some .quoted
      else if c == '^' then some .escaped
      else if endsWord c || (c == ')' && inBlock) then none
      else some .plain

def WordMode.first (c : Char) : WordMode :=
  if c == '"' then .quoted else if c == '^' then .escaped else .plain

/-- A word being read: its text (last character first), how many characters of the line it spans, how
many quoted regions it opened, and whether it has a character outside them. -/
structure WordScan where
  text : List Char
  size : Nat
  regions : Nat
  bare : Bool
  deriving DecidableEq

namespace WordScan

/-- Take `c`, read in `mode`, into the word. The escaping caret itself is dropped. -/
def push (w : WordScan) (mode : WordMode) (c : Char) : WordScan :=
  { text := if mode == .plain && c == '^' then w.text else c :: w.text
    size := w.size + 1
    regions := if mode == .plain && c == '"' then w.regions + 1 else w.regions
    bare := w.bare || (mode == .plain && c != '"') }

def lexeme (w : WordScan) : Lexeme :=
  .word (String.ofList w.text.reverse) (w.regions == 1 && !w.bare)

end WordScan

/-- Read a word to its end; the second component is what follows. -/
def scanWord (inBlock : Bool) : WordMode → WordScan → List Char → WordScan × List Char
  | _, w, [] => (w, [])
  | mode, w, c :: cs =>
    match mode.next inBlock c with
    | none => (w, c :: cs)
    | some mode' => scanWord inBlock mode' (w.push mode c) cs

theorem length_scanWord_le (inBlock : Bool) (mode : WordMode) (w : WordScan) (cs : List Char) :
    (scanWord inBlock mode w cs).2.length ≤ cs.length := by
  induction cs generalizing mode w with
  | nil => simp [scanWord]
  | cons c cs ih =>
    simp only [scanWord]
    split
    · exact Nat.le_refl _
    · exact Nat.le_succ_of_le (ih _ _)

def digit? (c : Char) : Option (Fin 10) :=
  if h : '0' ≤ c ∧ c ≤ '9' then
    some ⟨c.toNat - 48, by
      have h2 : c.toNat ≤ 57 := h.2
      omega⟩
  else none

def RedirectOp.ofSign (output : Bool) : RedirectOp := if output then .output else .input

/-- Read what follows the first sign of a redirection: a second sign for appending, or an ampersand with
a stream digit. The result counts the characters read. -/
def scanRedirect (handle : Option (Fin 10)) (output : Bool) (cs : List Char) :
    RedirectSign × Nat × List Char :=
  if output && cs.head? == some '>' then (⟨handle, .append, none⟩, 1, cs.drop 1)
  else if cs.head? == some '&' then
    match (cs.drop 1).head?.bind digit? with
    | some d => (⟨handle, .ofSign output, some d⟩, 2, cs.drop 2)
    | none => (⟨handle, .ofSign output, none⟩, 0, cs)
  else (⟨handle, .ofSign output, none⟩, 0, cs)

theorem length_scanRedirect_le (handle : Option (Fin 10)) (output : Bool) (cs : List Char) :
    (scanRedirect handle output cs).2.2.length ≤ cs.length := by
  unfold scanRedirect
  split
  · simp
  · split
    · split <;> simp
    · simp

/-- The redirection that starts at `c`, if one does: its sign, how many characters spell it, and what
follows. A digit belongs to it when a sign follows directly. -/
def redirectAt? (c : Char) (rest : List Char) : Option (RedirectSign × Nat × List Char) :=
  let finish (lead : Nat) (r : RedirectSign × Nat × List Char) := (r.1, lead + r.2.1, r.2.2)
  if c == '<' then some (finish 1 (scanRedirect none false rest))
  else if c == '>' then some (finish 1 (scanRedirect none true rest))
  else match digit? c with
    | some d =>
      if rest.head? == some '<' then some (finish 2 (scanRedirect (some d) false (rest.drop 1)))
      else if rest.head? == some '>' then some (finish 2 (scanRedirect (some d) true (rest.drop 1)))
      else none
    | none => none

theorem length_redirectAt?_le {c : Char} {rest : List Char} {sign : RedirectSign} {size : Nat}
    {after : List Char} (h : redirectAt? c rest = some (sign, size, after)) :
    after.length ≤ rest.length := by
  have drop (n : Nat) : (rest.drop n).length ≤ rest.length := by simp
  unfold redirectAt? at h
  split at h
  · cases h; exact length_scanRedirect_le ..
  split at h
  · cases h; exact length_scanRedirect_le ..
  split at h
  · split at h
    · cases h; exact Nat.le_trans (length_scanRedirect_le ..) (drop 1)
    split at h
    · cases h; exact Nat.le_trans (length_scanRedirect_le ..) (drop 1)
    · cases h
  · cases h

def wordAt (inBlock : Bool) (c : Char) (rest : List Char) : WordScan × List Char :=
  scanWord inBlock (WordMode.first c) (WordScan.push ⟨[], 0, 0, false⟩ .plain c) rest

theorem length_wordAt_le (inBlock : Bool) (c : Char) (rest : List Char) :
    (wordAt inBlock c rest).2.length ≤ rest.length := length_scanWord_le ..

/-- Read tokens from place `pos` on. `depth` counts the unmatched opening parentheses, `leading` is the
white space since the last token and `done` the tokens read so far, both last first. -/
def scanFrom (depth pos : Nat) (leading : List Char) (done : List Token) : List Char → List Token
  | [] => done.reverse
  | c :: rest =>
    let emit (lexeme : Lexeme) (size : Nat) : List Token :=
      ⟨lexeme, pos, pos + size, String.ofList leading.reverse⟩ :: done
    if c == ' ' || c == '\t' || c == '\r' then scanFrom depth (pos + 1) (c :: leading) done rest
    else if c == '\n' then
      scanFrom depth (pos + 1) [] (emit (.operator .lineBreak) 1) rest
    else if c == '&' then
      if rest.head? == some '&' then
        scanFrom depth (pos + 2) [] (emit (.operator .andThen) 2) (rest.drop 1)
      else scanFrom depth (pos + 1) [] (emit (.operator .both) 1) rest
    else if c == '|' then
      if rest.head? == some '|' then
        scanFrom depth (pos + 2) [] (emit (.operator .orElse) 2) (rest.drop 1)
      else scanFrom depth (pos + 1) [] (emit (.operator .pipe) 1) rest
    else if c == '(' then
      scanFrom (depth + 1) (pos + 1) [] (emit (.operator .openParen) 1) rest
    else if c == ')' && 0 < depth then
      scanFrom (depth - 1) (pos + 1) [] (emit (.operator .closeParen) 1) rest
    else
      match _h : redirectAt? c rest with
      | some (sign, size, after) =>
        scanFrom depth (pos + size) [] (emit (.redirect sign) size) after
      | none =>
        let word := wordAt (0 < depth) c rest
        scanFrom depth (pos + word.1.size) [] (emit word.1.lexeme word.1.size) word.2
  termination_by cs => cs.length
  decreasing_by
    all_goals simp only [List.length_cons, List.length_drop]
    all_goals first
      | omega
      | exact Nat.lt_succ_of_le (length_redirectAt?_le _h)
      | exact Nat.lt_succ_of_le (length_wordAt_le ..)

def Token.scan (line : String) : List Token := scanFrom 0 0 [] [] line.toList

end BatchShell
