import BatchShell.Parser.Sequence

/-!
# Conditions and loops

`IF [/I] [NOT] condition command [ELSE command]` and
`FOR [/D | /R [root] | /L | /F ["options"]] %v IN (set) DO command`. A body in parentheses is a block;
any other body runs to the end of the line or of the enclosing block. `ELSE` is recognised only after a
block.

* `condition` and `conditional` read an `IF`.
* `loopHead` and `loop` read a `FOR`.
-/
namespace BatchShell.Parser

/-- What stands before and after the first `==` outside quotes. -/
def cutEquals : Bool → List Char → Option (List Char × List Char)
  | _, [] => none
  | quoted, c :: cs =>
    if c == '"' then (cutEquals (!quoted) cs).map fun (a, b) => (c :: a, b)
    else if !quoted && c == '=' && cs.head? == some '=' then some ([], cs.drop 1)
    else (cutEquals quoted cs).map fun (a, b) => (c :: a, b)

/-- The rest of a comparison whose operator was followed directly by `tail`. -/
def rightOperand (lineEnd : Nat) (tail : List Char) (ts : List Token) :
    Reading (String × NotLonger ts) := do
  if tail.isEmpty then
    let (word, rest) ← expectWord lineEnd .rightOperand ts
    .ok (word.text, rest.weaken)
  else .ok (String.ofList tail, .all ts)

/-- Read `left==right`, with any blanks around the sign, or `left OP right`. -/
def comparison (lineEnd : Nat) (ts : List Token) : Reading (Test × Shorter ts) := do
  let (first, rest) ← expectWord lineEnd .condition ts
  match cutEquals false first.text.toList with
  | some (left, tail) =>
    let (right, after) ← rightOperand lineEnd tail rest.val
    .ok (.compare (String.ofList left) .equal right, rest.extend after)
  | none =>
    let (second, rest2) ← expectWord lineEnd .comparison rest.val
    match second.text.toList with
    | '=' :: '=' :: tail =>
      let (right, after) ← rightOperand lineEnd tail rest2.val
      .ok (.compare first.text .equal right, rest.trans (rest2.extend after))
    | _ =>
      match CompareOp.ofKeyword? second.text with
      | some op =>
        let (right, after) ← expectWord lineEnd .rightOperand rest2.val
        .ok (.compare first.text op right.text, rest.trans (rest2.trans after))
      | none => .error ⟨.unexpected second.text, second.offset⟩

/-- Read `/I` and `NOT`, each at most once and in any order. -/
def conditionFlags (negated ignoreCase : Bool) (ts : List Token) :
    Bool × Bool × NotLonger ts :=
  match peekKeyword? ts, word? ts with
  | some "/I", some (_, rest) =>
    if ignoreCase then (negated, ignoreCase, ⟨ts, Nat.le_refl _⟩)
    else
      let (n, i, after) := conditionFlags negated true rest.val
      (n, i, ⟨after.val, Nat.le_trans after.property (Nat.le_of_lt rest.property)⟩)
  | some "NOT", some (_, rest) =>
    if negated then (negated, ignoreCase, ⟨ts, Nat.le_refl _⟩)
    else
      let (n, i, after) := conditionFlags true ignoreCase rest.val
      (n, i, ⟨after.val, Nat.le_trans after.property (Nat.le_of_lt rest.property)⟩)
  | _, _ => (negated, ignoreCase, ⟨ts, Nat.le_refl _⟩)
  termination_by ts.length
  decreasing_by all_goals exact rest.property

/-- Read a test after its keyword: the word it is about. -/
def keywordTest (lineEnd : Nat) (what : Expected) (make : String → Test) (ts : List Token) :
    Reading (Test × Shorter ts) :=
  match word? ts with
  | none => .error ⟨.expected what, offset lineEnd ts⟩
  | some (_, rest) => do
    let (word, after) ← expectWord lineEnd what rest.val
    .ok (make word.text, rest.trans after)

def test (lineEnd : Nat) (ts : List Token) : Reading (Test × Shorter ts) :=
  match peekKeyword? ts with
  | some "EXIST" => keywordTest lineEnd .existPath .exist ts
  | some "DEFINED" => keywordTest lineEnd .definedName .defined ts
  | some "ERRORLEVEL" => keywordTest lineEnd .errorLevelNumber .errorLevel ts
  | _ => comparison lineEnd ts

def condition (lineEnd : Nat) (ts : List Token) : Reading (Condition × Shorter ts) := do
  let (negated, ignoreCase, rest) := conditionFlags false false ts
  let (asked, after) ← test lineEnd rest.val
  .ok (⟨negated, ignoreCase, asked⟩, rest.trans after)

/-- Read the body of a condition or loop, and tell whether it was a block. -/
def branch (lineEnd : Nat) (command : CommandReader) (inBlock : Bool) (ts : List Token) :
    Reading (Command × Bool × NotLonger ts) :=
  match ts with
  | t :: us =>
    if t.isOp .openParen then do
      let (body, rest) ← block command t.start us
      .ok (body, true, (rest.behind t).weaken)
    else do
      let (body, rest) ← sequence command inBlock true (t :: us)
      match body with
      | some found => .ok (found, false, rest)
      | none => .error ⟨.missingCommand, t.start⟩
  | [] => .error ⟨.missingCommand, lineEnd⟩

/-- Read a condition with its branches; the word `IF` is still to be taken. -/
def conditional (lineEnd : Nat) (command : CommandReader) (inBlock : Bool) (ts : List Token) :
    Reading (Command × Shorter ts) := do
  let (_, rest) ← expectWord lineEnd .ifWord ts
  let (asked, rest2) ← condition lineEnd rest.val
  let (body, isBlock, rest3) ← branch lineEnd command inBlock rest2.val
  match word? rest3.val with
  | some (word, rest4) =>
    if isBlock && word.text.map Char.toUpper == "ELSE" then
      let (other, _, rest5) ← branch lineEnd command inBlock rest4.val
      .ok (.ifElse asked body other, rest.trans (rest2.trans (rest3.trans (rest4.extend rest5))))
    else .ok (.ifThen asked body, rest.trans (rest2.extend rest3))
  | none => .ok (.ifThen asked body, rest.trans (rest2.extend rest3))

def trimQuotes (s : String) : String :=
  String.ofList (((s.toList.dropWhile (· == '"')).reverse.dropWhile (· == '"')).reverse)

/-- The quoted option text that may follow `/F`. -/
def lineOptionText (ts : List Token) : String × NotLonger ts :=
  match ts with
  | t :: us =>
    match t.lexeme with
    | .word text true => (trimQuotes text, ((NotLonger.all us).behind t).weaken)
    | _ => ("", .all (t :: us))
  | [] => ("", .all [])

/-- The directory that may follow `/R`; a word that starts with a percent sign is the loop variable. -/
def recursionRoot (ts : List Token) : Option String × NotLonger ts :=
  match word? ts with
  | some (word, rest) =>
    if word.text.toList.head? == some '%' then (none, .all ts)
    else (some word.text, rest.weaken)
  | none => (none, .all ts)

/-- Read the switches of a loop; the last one decides its kind. -/
def loopKind (kind : LoopKind) (ts : List Token) : LoopKind × NotLonger ts :=
  match peekKeyword? ts, word? ts with
  | some "/L", some (_, rest) =>
    let (k, after) := loopKind .range rest.val
    (k, ⟨after.val, Nat.le_trans after.property (Nat.le_of_lt rest.property)⟩)
  | some "/D", some (_, rest) =>
    let (k, after) := loopKind .directories rest.val
    (k, ⟨after.val, Nat.le_trans after.property (Nat.le_of_lt rest.property)⟩)
  | some "/R", some (_, rest) =>
    let (root, rest2) := recursionRoot rest.val
    let (k, after) := loopKind (.recursive root) rest2.val
    (k, ⟨after.val, Nat.le_trans after.property
      (Nat.le_trans rest2.property (Nat.le_of_lt rest.property))⟩)
  | some "/F", some (_, rest) =>
    let (options, rest2) := lineOptionText rest.val
    let (k, after) := loopKind (.lines options) rest2.val
    (k, ⟨after.val, Nat.le_trans after.property
      (Nat.le_trans rest2.property (Nat.le_of_lt rest.property))⟩)
  | _, _ => (kind, ⟨ts, Nat.le_refl _⟩)
  termination_by ts.length
  decreasing_by
    · exact rest.property
    · exact rest.property
    · exact Nat.lt_of_le_of_lt rest2.property rest.property
    · exact Nat.lt_of_le_of_lt rest2.property rest.property

/-- The letter of a loop variable, written with one or two percent signs. -/
def loopLetter? (text : String) : Option Char :=
  match text.toList with
  | ['%', c] => if c == '%' then none else some c
  | ['%', '%', c] => some c
  | _ => none

/-- Read the text of a set up to its closing parenthesis; the opening one has been taken. White space
before the first token is dropped and a line break becomes a blank. -/
def setText (nested : Nat) (raw : String) : (ts : List Token) → Option (String × Shorter ts)
  | [] => none
  | t :: ts =>
    let widen (found : Option (String × Shorter ts)) : Option (String × Shorter (t :: ts)) :=
      found.map fun (text, rest) => (text, ⟨rest.val, Nat.lt_succ_of_lt rest.property⟩)
    let taken := if raw.isEmpty then t.text else raw ++ t.leading ++ t.text
    if t.isOp .closeParen then
      if nested = 0 then some (raw, ⟨ts, Nat.lt_succ_self _⟩)
      else widen (setText (nested - 1) taken ts)
    else if t.isOp .openParen then widen (setText (nested + 1) taken ts)
    else if t.isOp .lineBreak then widen (setText nested (raw ++ " ") ts)
    else widen (setText nested taken ts)

def separatesItems (c : Char) : Bool := c == ' ' || c == '\t' || c == ',' || c == ';' || c == '='

/-- The words of a set; `word` is the word being read, last character first. -/
def setItemsFrom (quoted : Bool) (word : List Char) : List Char → List String
  | [] => if word.isEmpty then [] else [String.ofList word.reverse]
  | c :: cs =>
    if c == '"' then setItemsFrom (!quoted) (c :: word) cs
    else if !quoted && separatesItems c then
      if word.isEmpty then setItemsFrom quoted [] cs
      else String.ofList word.reverse :: setItemsFrom quoted [] cs
    else setItemsFrom quoted (c :: word) cs

def setItems (raw : String) : List String := setItemsFrom false [] raw.toList

def expectKeyword (lineEnd : Nat) (what : Expected) (keyword : String) (ts : List Token) :
    Reading (Shorter ts) := do
  let (word, rest) ← expectWord lineEnd what ts
  if word.text.map Char.toUpper == keyword then .ok rest
  else .error ⟨.unexpected word.text, word.offset⟩

/-- Read a loop up to its `DO`; the word `FOR` is still to be taken. -/
def loopHead (lineEnd : Nat) (ts : List Token) : Reading (LoopHead × Shorter ts) := do
  let (_, rest) ← expectWord lineEnd .forWord ts
  let (kind, rest2) := loopKind .items rest.val
  let (named, rest3) ← expectWord lineEnd .loopVariable rest2.val
  match loopLetter? named.text with
  | none => .error ⟨.unexpected named.text, named.offset⟩
  | some letter =>
    let rest4 ← expectKeyword lineEnd .inWord "IN" rest3.val
    match h : rest4.val with
    | [] => .error ⟨.unexpected "", lineEnd⟩
    | t :: us =>
      if t.isOp .openParen then
        match setText 0 "" us with
        | none => .error ⟨.unclosedParen, t.start⟩
        | some (raw, rest5) =>
          let rest6 ← expectKeyword lineEnd .doWord "DO" rest5.val
          .ok (⟨letter, kind, setItems raw, raw⟩, ⟨rest6.val, by
            have h1 := rest.property
            have h2 := rest2.property
            have h3 := rest3.property
            have h4 := rest4.property
            have h5 := rest5.property
            have h6 := rest6.property
            rw [h] at h4
            simp at h4
            omega⟩)
      else .error ⟨.unexpected t.text, t.start⟩

def loop (lineEnd : Nat) (command : CommandReader) (inBlock : Bool) (ts : List Token) :
    Reading (Command × Shorter ts) := do
  let (head, rest) ← loopHead lineEnd ts
  let (body, _, after) ← branch lineEnd command inBlock rest.val
  .ok (.loop head body, rest.extend after)

end BatchShell.Parser
