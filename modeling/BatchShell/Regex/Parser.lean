import BatchShell.Numeral
import BatchShell.Regex.Basic
import BatchShell.Text.Blank
import BatchShell.Text.Hex
import BatchShell.Text.Letter
import BatchShell.Text.Split

/-!
# Reading regular expressions

The other half of the stand-in for the library: groups `(…)`, `(?:…)` and `(?<name>…)`, flags `(?i)`,
alternatives, classes `[…]` with ranges and `[:name:]`, repetitions `?`, `*`, `+`, `{n}`, `{n,}`, `{n,m}` with
an optional lazy mark, escapes and anchors. What is not understood makes the whole expression invalid.

* `Regex.parse?` reads an expression.
-/
namespace BatchShell.Regex

open Text

/-- The flags that govern how the next part is read. -/
structure Flags where
  ignoreCase : Bool
  /-- `^` and `$` match at lines. -/
  multiLine : Bool
  /-- `.` matches a line feed. -/
  dotAll : Bool
  crlf : Bool
  /-- White space and comments are passed over. -/
  verbose : Bool
  deriving DecidableEq

def Flags.none : Flags := ⟨false, false, false, false, false⟩

def Flags.change (f : Flags) (on : Bool) (letter : Char) : Option Flags :=
  match letter with
  | 'i' => some { f with ignoreCase := on }
  | 'm' => some { f with multiLine := on }
  | 's' => some { f with dotAll := on }
  | 'R' => some { f with crlf := on }
  | 'x' => some { f with verbose := on }
  | 'U' | 'u' => some f
  | _ => Option.none

/-- Pass over white space and comments where the flags say so. -/
def skipSpace (f : Flags) (cs : List Char) : List Char :=
  if !f.verbose then cs
  else
    let rec go (comment : Bool) : List Char → List Char
      | [] => []
      | c :: cs =>
        if comment then go (c != '\n') cs
        else if isBlank c then go false cs
        else if c == '#' then go true cs
        else c :: cs
    go false cs

def isMeta (c : Char) : Bool := "\\.+*?()|[]\x7b\x7d^$#&-~".toList.contains c

/-- A character that stands for itself after a backslash. -/
def isEscapable (c : Char) : Bool :=
  isMeta c || (c.toNat < 128 && !c.isAlphanum && c != '<' && c != '>')

def namedClass? : String → Option (List (Nat × Nat))
  | "alnum" => some [(48, 57), (65, 90), (97, 122)]
  | "alpha" => some [(65, 90), (97, 122)]
  | "ascii" => some [(0, 127)]
  | "blank" => some [(9, 9), (32, 32)]
  | "cntrl" => some [(0, 31), (127, 127)]
  | "digit" => some [(48, 57)]
  | "graph" => some [(33, 126)]
  | "lower" => some [(97, 122)]
  | "print" => some [(32, 126)]
  | "punct" => some [(33, 47), (58, 64), (91, 96), (123, 126)]
  | "space" => some [(9, 13), (32, 32)]
  | "upper" => some [(65, 90)]
  | "word" => some [(48, 57), (65, 90), (95, 95), (97, 122)]
  | "xdigit" => some [(48, 57), (65, 70), (97, 102)]
  | _ => none

inductive Escape where
  | char (c : Char)
  | cls (item : ClassItem)
  | look (look : Look)

/-- Read a character by its code: in braces, or `size` digits. -/
def readHex? (f : Flags) (size : Nat) (cs : List Char) : Option (Char × List Char) :=
  let plain (cs : List Char) : List Char :=
    if f.verbose then cs.filter fun c => !isBlank c else cs
  match skipSpace f cs with
  | '\x7b' :: rest =>
    match rest.dropWhile (· != '\x7d') with
    | _ :: after => (hexChar? (plain (rest.takeWhile (· != '\x7d')))).map (·, skipSpace f after)
    | [] => none
  | digits =>
    let taken := digits.take size
    if taken.length == size && taken.all isHexDigit then
      (hexChar? taken).map (·, skipSpace f (digits.drop size))
    else none

/-- The look that a name in braces after `\b` asks for. -/
def boundaryNamed? : String → Option Look
  | "start" => some .wordStart
  | "end" => some .wordStop
  | "start-half" => some .wordStartHalf
  | "end-half" => some .wordStopHalf
  | _ => none

def isBoundaryChar (c : Char) : Bool := c.isAlpha || c == '-'

/-- Read what follows `\b`: a brace with a letter or dash starts the name of a special boundary. -/
def readBoundary? (f : Flags) (cs : List Char) : Option (Look × List Char) :=
  match cs with
  | '\x7b' :: rest =>
    match skipSpace f rest with
    | [] => none
    | c :: more =>
      if isBoundaryChar c then
        match (c :: more).dropWhile isBoundaryChar with
        | '\x7d' :: after =>
          (boundaryNamed? (String.ofList ((c :: more).takeWhile isBoundaryChar))).map (·, after)
        | _ => none
      else some (.wordBoundary, cs)
  | _ => some (.wordBoundary, cs)

def readEscape? (f : Flags) : List Char → Option (Escape × List Char)
  | [] => none
  | c :: cs =>
    let named (name : String) : Option (Escape × List Char) :=
      (namedClass? name).map fun ranges => (.cls ⟨c.isUpper, ranges⟩, cs)
    if isEscapable c then some (.char c, cs)
    else
      match c with
      | 'd' | 'D' => named "digit"
      | 's' | 'S' => named "space"
      | 'w' | 'W' => named "word"
      | 'x' => (readHex? f 2 cs).map fun (c, rest) => (.char c, rest)
      | 'u' => (readHex? f 4 cs).map fun (c, rest) => (.char c, rest)
      | 'U' => (readHex? f 8 cs).map fun (c, rest) => (.char c, rest)
      | 'a' => some (.char '\x07', cs)
      | 'f' => some (.char '\x0c', cs)
      | 't' => some (.char '\t', cs)
      | 'n' => some (.char '\n', cs)
      | 'r' => some (.char '\r', cs)
      | 'v' => some (.char '\x0b', cs)
      | 'A' => some (.look .start, cs)
      | 'z' => some (.look .stop, cs)
      | 'b' => (readBoundary? f cs).map fun (asked, rest) => (.look asked, rest)
      | 'B' => some (.look .notWordBoundary, cs)
      | '<' => some (.look .wordStart, cs)
      | '>' => some (.look .wordStop, cs)
      | _ => none

/-! ## Classes -/

def readNamed? (cs : List Char) : Option (ClassItem × List Char) :=
  let (negated, cs) := match cs with
    | '^' :: rest => (true, rest)
    | _ => (false, cs)
  match cs.dropWhile (· != ':') with
  | ':' :: ']' :: rest =>
    (namedClass? (String.ofList (cs.takeWhile (· != ':')))).map fun ranges => (⟨negated, ranges⟩, rest)
  | _ => none

/-- Read one member of a class. The character is given where it can bound a range: an escaped letter
that stands for both its cases cannot. -/
def readMember? (f : Flags) : List Char → Option (Option Char × ClassItem × List Char)
  | [] => none
  | '\\' :: cs =>
    match readEscape? f cs with
    | some (.char c, rest) => some (if f.ignoreCase && c.isAlpha then none else some c, .single c, rest)
    | some (.cls item, rest) => some (none, item, rest)
    | _ => none
  | c :: cs => some (some c, .single c, cs)

def readRange? (f : Flags) (cs : List Char) : Option (ClassItem × List Char) :=
  match readMember? f cs with
  | none => none
  | some (first, item, rest) =>
    match skipSpace f rest with
    | [] => none
    | '-' :: more =>
      match skipSpace f more with
      | [] => none
      | ']' :: _ | '-' :: _ => some (item, '-' :: more)
      | more =>
        match first, readMember? f more with
        | some a, some (some b, _, rest) =>
          if a ≤ b then some (⟨false, [(a.toNat, b.toNat)]⟩, rest) else none
        | _, _ => none
    | rest => some (item, rest)

def readMembers? (f : Flags) (items : List ClassItem) (cs : List Char) :
    Option (List ClassItem × List Char) :=
  match skipSpace f cs with
  | [] => none
  | ']' :: rest => some (items, rest)
  | '[' :: ':' :: rest =>
    match readNamed? rest with
    | some (item, rest) =>
      if _h : rest.length < cs.length then readMembers? f (item :: items) rest else none
    | none => none
  | '[' :: _ => none
  | '&' :: '&' :: _ | '-' :: '-' :: _ | '~' :: '~' :: _ => none
  | here =>
    match readRange? f here with
    | some (item, rest) =>
      if _h : rest.length < cs.length then readMembers? f (item :: items) rest else none
    | none => none
  termination_by cs.length

/-- The dashes that may start a class, and a closing bracket that does. -/
def readFirst (f : Flags) : List Char → List ClassItem × List Char
  | '-' :: cs =>
    let rest := (skipSpace f cs).dropWhile (· == '-')
    ([.single '-'], rest)
  | ']' :: cs => ([.single ']'], cs)
  | cs => ([], cs)

def readClass? (f : Flags) (cs : List Char) : Option (Regex × List Char) :=
  let (negated, cs) := match skipSpace f cs with
    | '^' :: rest => (true, skipSpace f rest)
    | cs => (false, cs)
  let (items, cs) := readFirst f cs
  (readMembers? f items cs).map fun (items, rest) => (.set f.ignoreCase negated items, rest)

/-! ## Repetitions -/

def readCount? (f : Flags) (cs : List Char) : Option (Nat × List Char) :=
  let cs := cs.dropWhile isBlank
  let digits := cs.takeWhile Char.isDigit
  (Numeral.digits? 10 digits).bind fun n =>
    if n < UInt32.size then some (n, skipSpace f ((cs.dropWhile Char.isDigit).dropWhile isBlank)) else none

def dropLazy : List Char → List Char
  | '?' :: cs => cs
  | cs => cs

def readBounds? (f : Flags) (cs : List Char) : Option (Nat × Option Nat × List Char) :=
  match readCount? f (skipSpace f cs) with
  | some (least, '\x7d' :: rest) => some (least, some least, dropLazy (skipSpace f rest))
  | some (least, ',' :: rest) =>
    match skipSpace f rest with
    | '\x7d' :: rest => some (least, none, dropLazy (skipSpace f rest))
    | rest =>
      match readCount? f rest with
      | some (most, '\x7d' :: rest) =>
        if least ≤ most then some (least, some most, dropLazy (skipSpace f rest)) else none
      | _ => none
  | _ => none

/-! ## Groups -/

inductive GroupStart where
  | group (flags : Flags) (name : Option String)
  /-- Only flags, for the rest of the enclosing group. -/
  | flags (flags : Flags)

def isNameChar (first : Bool) (c : Char) : Bool :=
  if first then c == '_' || isLetter c
  else c == '_' || c == '.' || c == '[' || c == ']' || isLetterOrNumeral c

/-- Read the name of a group up to `>`. -/
def readName? (cs : List Char) : Option (String × List Char) :=
  let name := cs.takeWhile (· != '>')
  match cs.dropWhile (· != '>'), name with
  | _ :: rest, c :: more =>
    if isNameChar true c && more.all (isNameChar false) then some (String.ofList name, rest) else none
  | _, _ => none

/-- Read flags up to `:` or `)`. -/
def readFlags? (f : Flags) (on : Bool) (seen : List Char) : List Char → Option (Flags × List Char)
  | [] => none
  | c :: cs =>
    if c == ':' || c == ')' then
      if seen.head? == some '-' then none else some (f, c :: cs)
    else if c == '-' then if on then readFlags? f false ('-' :: seen) cs else none
    else if seen.contains c then none
    else (f.change on c).bind fun f => readFlags? f on (c :: seen) cs

def readGroup? (f : Flags) (cs : List Char) : Option (GroupStart × List Char) :=
  match skipSpace f cs with
  | '?' :: '=' :: _ | '?' :: '!' :: _ | '?' :: '<' :: '=' :: _ | '?' :: '<' :: '!' :: _ => none
  | '?' :: 'P' :: '<' :: rest | '?' :: '<' :: rest =>
    (readName? rest).map fun (name, rest) => (.group f (some name), rest)
  | '?' :: rest =>
    match readFlags? f true [] rest with
    | some (g, ':' :: after) => some (.group g none, after)
    | some (g, ')' :: after) => if rest.head? == some ')' then none else some (.flags g, after)
    | _ => none
  | rest => some (.group f none, rest)

/-! ## Expressions -/

/-- An open group: the alternatives before the current one, its items, both latest first, and the flags
of the enclosing group. -/
structure Level where
  alternatives : List Regex
  items : List Regex
  outer : Flags

/-- What has been read: the flags, the open groups, innermost first, and the names given to groups. -/
structure Reading where
  flags : Flags
  level : Level
  outer : List Level
  names : List String

def maxNesting : Nat := 50

def Level.close (l : Level) : Regex :=
  l.alternatives.foldl (fun later earlier => .either earlier later) (ofList l.items.reverse)

def Reading.add (r : Reading) (item : Regex) : Reading :=
  { r with level := { r.level with items := item :: r.level.items } }

def Reading.repeatLast? (r : Reading) (least : Nat) (most : Option Nat) : Option Reading :=
  match r.level.items with
  | [] => none
  | item :: items => some { r with level := { r.level with items := .times item least most :: items } }

def Reading.openGroup? (r : Reading) (flags : Flags) (name : Option String) : Option Reading :=
  if maxNesting < r.outer.length + 1 then none
  else if (name.map r.names.contains).getD false then none
  else some ⟨flags, ⟨[], [], r.flags⟩, r.level :: r.outer, name.toList ++ r.names⟩

def Reading.closeGroup? (r : Reading) : Option Reading :=
  match r.outer with
  | [] => none
  | parent :: outer =>
    some ({ r with flags := r.level.outer, level := parent, outer := outer }.add r.level.close)

/-- Any character, but a line feed only where the flags say so. -/
def dot (f : Flags) : Regex :=
  if f.dotAll then .set false true []
  else if f.crlf then .set false true [.single '\n', .single '\r']
  else .set false true [.single '\n']

def Reading.step? (r : Reading) (c : Char) (cs : List Char) : Option (Reading × List Char) :=
  let f := r.flags
  match c with
  | '(' =>
    match readGroup? f cs with
    | some (.group g name, rest) => (r.openGroup? g name).map (·, rest)
    | some (.flags g, rest) => some ({ r with flags := g }, rest)
    | none => none
  | ')' => r.closeGroup?.map (·, cs)
  | '|' => some ({ r with level := { r.level with
      alternatives := ofList r.level.items.reverse :: r.level.alternatives, items := [] } }, cs)
  | '[' => (readClass? f cs).map fun (item, rest) => (r.add item, rest)
  | '?' => (r.repeatLast? 0 (some 1)).map (·, dropLazy cs)
  | '*' => (r.repeatLast? 0 none).map (·, dropLazy cs)
  | '+' => (r.repeatLast? 1 none).map (·, dropLazy cs)
  | '\x7b' => (readBounds? f cs).bind fun (least, most, rest) => (r.repeatLast? least most).map (·, rest)
  | '.' => some (r.add (dot f), cs)
  | '^' => some (r.add (.look (if f.multiLine then .lineStart f.crlf else .start)), cs)
  | '$' => some (r.add (.look (if f.multiLine then .lineStop f.crlf else .stop)), cs)
  | '\\' =>
    match readEscape? f cs with
    | some (.char c, rest) => some (r.add (char f.ignoreCase c), rest)
    | some (.cls item, rest) => some (r.add (.set false false [item]), rest)
    | some (.look asked, rest) => some (r.add (.look asked), rest)
    | none => none
  | c => some (r.add (char f.ignoreCase c), cs)

/-- Read the parts of an expression to its end. A part is never empty, so the rest gets shorter. -/
def parseFrom (r : Reading) (cs : List Char) : Option Regex :=
  match skipSpace r.flags cs with
  | [] => if r.outer.isEmpty then some r.level.close else none
  | c :: rest =>
    match r.step? c rest with
    | some (r, rest) => if _h : rest.length < cs.length then parseFrom r rest else none
    | none => none
  termination_by cs.length

/-- Read an expression; `none` when it is not valid. -/
def parse? (ignoreCase : Bool) (text : String) : Option Regex :=
  let flags := { Flags.none with ignoreCase := ignoreCase }
  parseFrom ⟨flags, ⟨[], [], flags⟩, [], []⟩ text.toList

end BatchShell.Regex
