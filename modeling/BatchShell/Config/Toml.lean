import BatchShell.Numeral
import BatchShell.Text.Hex

/-!
# TOML

A stand-in for the library that reads settings: keys with values, in tables. Strings, truth values, integers,
arrays and tables are read; dates and numbers with a fraction are not, since no setting is one. A key or table
that is defined twice makes the text invalid.

* `Toml.parse?` reads a text into the entries of its outermost table.
-/
namespace BatchShell.Toml

inductive TableKind where
  /-- In braces. -/
  | inline
  /-- By a header in brackets. -/
  | header
  /-- By a key with a dot. -/
  | dotted
  /-- On the way to a table with a header. -/
  | implied
  deriving DecidableEq

inductive Value where
  | text (text : String)
  | boolean (value : Bool)
  | integer (value : Int)
  | array (items : List Value)
  | table (kind : TableKind) (entries : List (String × Value))

/-- The entries of a table in the order of their definition. -/
abbrev Entries := List (String × Value)

/-! ## Tables -/

def replaceEntry (key : String) (value : Value) (es : Entries) : Entries :=
  es.map fun (k, v) => if k == key then (k, value) else (k, v)

/-- Define a value under a path of keys, of which the last is new. -/
def insert? (value : Value) : List String → Entries → Option Entries
  | [], _ => none
  | [key], es => if (es.lookup key).isSome then none else some (es ++ [(key, value)])
  | key :: keys, es =>
    match es.lookup key with
    | none => (insert? value keys []).map fun inner => es ++ [(key, .table .dotted inner)]
    | some (.table .dotted inner) =>
      (insert? value keys inner).map fun inner => replaceEntry key (.table .dotted inner) es
    | some _ => none

/-- Define the table of a header. -/
def defineTable? : List String → Entries → Option Entries
  | [], _ => none
  | [key], es =>
    match es.lookup key with
    | none => some (es ++ [(key, .table .header [])])
    | some (.table .implied inner) => some (replaceEntry key (.table .header inner) es)
    | some _ => none
  | key :: keys, es =>
    match es.lookup key with
    | none => (defineTable? keys []).map fun inner => es ++ [(key, .table .implied inner)]
    | some (.table .inline _) => none
    | some (.table kind inner) =>
      (defineTable? keys inner).map fun inner => replaceEntry key (.table kind inner) es
    | some _ => none

def insertUnder? (value : Value) (path : List String) : List String → Entries → Option Entries
  | [], es => insert? value path es
  | key :: keys, es =>
    match es.lookup key with
    | some (.table kind inner) =>
      (insertUnder? value path keys inner).map fun inner => replaceEntry key (.table kind inner) es
    | _ => none

/-! ## Characters -/

/-- The text with line feeds only as line ends, if it holds no other control characters than tabs. -/
def normalize? : List Char → Option (List Char)
  | [] => some []
  | '\r' :: '\n' :: cs => (normalize? cs).map ('\n' :: ·)
  | c :: cs =>
    if (c.toNat < 32 && c != '\t' && c != '\n') || c.toNat == 127 then none
    else (normalize? cs).map (c :: ·)

def isSpace (c : Char) : Bool := c == ' ' || c == '\t'

def isGap (c : Char) : Bool := isSpace c || c == '\n'

def skipSpaces (cs : List Char) : List Char := cs.dropWhile isSpace

/-- Drop blanks, line ends and comments. -/
def skipLines (comment : Bool) : List Char → List Char
  | [] => []
  | c :: cs =>
    if comment then skipLines (c != '\n') cs
    else if isSpace c || c == '\n' then skipLines false cs
    else if c == '#' then skipLines true cs
    else c :: cs

/-- The end of a line: blanks and a comment. Gives what follows the line. -/
def lineEnd? (cs : List Char) : Option (List Char) :=
  match skipSpaces cs with
  | [] => some []
  | '\n' :: rest => some rest
  | '#' :: rest => some ((rest.dropWhile (· != '\n')).drop 1)
  | _ => none

/-! ## Strings -/

def escape? : List Char → Option (Char × List Char)
  | 'b' :: cs => some ('\x08', cs)
  | 't' :: cs => some ('\t', cs)
  | 'n' :: cs => some ('\n', cs)
  | 'f' :: cs => some ('\x0c', cs)
  | 'r' :: cs => some ('\r', cs)
  | '"' :: cs => some ('"', cs)
  | '\\' :: cs => some ('\\', cs)
  | 'u' :: cs => coded 4 cs
  | 'U' :: cs => coded 8 cs
  | _ => none
where
  /-- A character by its code in `size` hexadecimal digits. -/
  coded (size : Nat) (cs : List Char) : Option (Char × List Char) :=
    let digits := cs.take size
    if digits.length == size && digits.all Text.isHexDigit then
      (Text.hexChar? digits).map (·, cs.drop size)
    else none

/-- Read a string after its opening double quote. -/
def basicString? (cs : List Char) : Option (List Char × List Char) :=
  match cs with
  | [] => none
  | '"' :: rest => some ([], rest)
  | '\n' :: _ => none
  | '\\' :: more =>
    match escape? more with
    | some (c, rest) =>
      if _h : rest.length ≤ more.length then (basicString? rest).map fun (s, after) => (c :: s, after)
      else none
    | none => none
  | c :: rest => (basicString? rest).map fun (s, after) => (c :: s, after)
  termination_by cs.length

def literalString? (cs : List Char) : Option (List Char × List Char) :=
  let isEnd (c : Char) : Bool := c == Char.ofNat 39 || c == '\n'
  match cs.dropWhile fun c => !isEnd c with
  | c :: rest => if c == '\n' then none else some (cs.takeWhile fun c => !isEnd c, rest)
  | [] => none

/-- Where quotes stand in a string of several lines: up to two belong to the text, three end it, and up to
two before those belong to the text again. -/
inductive QuoteRun where
  | inside (count : Nat)
  | closing (count : Nat)

def QuoteRun.ofCount (n : Nat) : QuoteRun :=
  if n < 3 then .inside n else .closing (min (n - 3) 2)

/-- Read a string of several lines after its three opening quotes. Only in double quotes does a backslash
have a meaning; at the end of a line it takes all blanks and line ends that follow. -/
def longString? (quote : Char) (cs : List Char) : Option (List Char × List Char) :=
  match cs with
  | [] => none
  | c :: more =>
    if c == quote then
      let run := cs.takeWhile (· == quote)
      match QuoteRun.ofCount run.length with
      | .closing count => some (List.replicate count quote, cs.drop (count + 3))
      | .inside count =>
        let rest := more.drop (count - 1)
        if _h : rest.length ≤ more.length then
          (longString? quote rest).map fun (s, after) => (List.replicate count quote ++ s, after)
        else none
    else if c == '\\' && quote == '"' then
      match skipSpaces more with
      | '\n' :: _ =>
        if _h : (more.dropWhile isGap).length ≤ more.length then longString? quote (more.dropWhile isGap)
        else none
      | _ =>
        match escape? more with
        | some (c, rest) =>
          if _h : rest.length ≤ more.length then
            (longString? quote rest).map fun (s, after) => (c :: s, after)
          else none
        | none => none
    else (longString? quote more).map fun (s, after) => (c :: s, after)
  termination_by cs.length
  decreasing_by
    · exact Nat.lt_succ_of_le _h
    · exact Nat.lt_succ_of_le _h
    · exact Nat.lt_succ_of_le _h
    · exact Nat.lt_succ_self _

/-- A line end right after the opening quotes does not belong to the text. -/
def dropNewline : List Char → List Char
  | '\n' :: cs => cs
  | cs => cs

def afterTriple? (quote : Char) : List Char → Option (List Char)
  | a :: b :: c :: rest => if a == quote && b == quote && c == quote then some rest else none
  | _ => none

def shortString? : List Char → Option (List Char × List Char)
  | c :: rest =>
    if c == '"' then basicString? rest
    else if c == Char.ofNat 39 then literalString? rest
    else none
  | [] => none

def string? (cs : List Char) : Option (List Char × List Char) :=
  match afterTriple? '"' cs, afterTriple? (Char.ofNat 39) cs with
  | some rest, _ => longString? '"' (dropNewline rest)
  | none, some rest => longString? (Char.ofNat 39) (dropNewline rest)
  | none, none => shortString? cs

/-! ## Keys -/

def isKeyChar (c : Char) : Bool := c.isAlphanum || c == '_' || c == '-'

def simpleKey? (cs : List Char) : Option (String × List Char) :=
  match shortString? cs with
  | some (name, rest) => some (String.ofList name, rest)
  | none =>
    let name := cs.takeWhile isKeyChar
    if name.isEmpty then none else some (String.ofList name, cs.dropWhile isKeyChar)

/-- Read keys joined by dots. -/
def keyPath? (cs : List Char) : Option (List String × List Char) :=
  match simpleKey? (skipSpaces cs) with
  | none => none
  | some (name, rest) =>
    match skipSpaces rest with
    | '.' :: more =>
      if _h : more.length < cs.length then (keyPath? more).map fun (names, after) => (name :: names, after)
      else none
    | after => some ([name], after)
  termination_by cs.length

/-! ## Values -/

/-- The digits of a number, in which single underscores stand between digits. -/
def digits? (isDigit : Char → Bool) : Bool → List Char → Option (List Char)
  | afterDigit, [] => if afterDigit then some [] else none
  | afterDigit, c :: cs =>
    if c == '_' then if afterDigit then digits? isDigit false cs else none
    else if isDigit c then (digits? isDigit true cs).map (c :: ·)
    else none

/-- A decimal without superfluous zeros. -/
def decimal? (cs : List Char) : Option Nat :=
  (digits? Char.isDigit false cs).bind fun ds =>
    match ds with
    | '0' :: _ :: _ => none
    | _ => Numeral.digits? 10 ds

def based? (base : Nat) (isDigit : Char → Bool) (cs : List Char) : Option Nat :=
  (digits? isDigit false cs).bind (Numeral.digits? base)

def integer? (word : List Char) : Option Int :=
  let value := match word with
    | '0' :: 'x' :: cs => (based? 16 Text.isHexDigit cs).map Int.ofNat
    | '0' :: 'o' :: cs => (based? 8 (fun c => '0' ≤ c && c ≤ '7') cs).map Int.ofNat
    | '0' :: 'b' :: cs => (based? 2 (fun c => c == '0' || c == '1') cs).map Int.ofNat
    | '-' :: cs => (decimal? cs).map fun n => -(n : Int)
    | '+' :: cs => (decimal? cs).map Int.ofNat
    | cs => (decimal? cs).map Int.ofNat
  value.bind fun n => if Numeral.fits64 n then some n else none

def isWordChar (c : Char) : Bool := c.isAlphanum || c == '_' || c == '-' || c == '+' || c == '.' || c == ':'

def word? (cs : List Char) : Option (Value × List Char) :=
  let word := cs.takeWhile isWordChar
  let rest := cs.dropWhile isWordChar
  match String.ofList word with
  | "true" => some (.boolean true, rest)
  | "false" => some (.boolean false, rest)
  | _ => (integer? word).map fun n => (.integer n, rest)

mutual

def value? : Nat → List Char → Option (Value × List Char)
  | 0, _ => none
  | fuel + 1, cs =>
    match cs with
    | '[' :: rest => (items? fuel rest).map fun (vs, after) => (.array vs, after)
    | '\x7b' :: rest =>
      match skipSpaces rest with
      | '\x7d' :: after => some (.table .inline [], after)
      | rest => (entries? fuel [] rest).map fun (es, after) => (.table .inline es, after)
    | _ =>
      match string? cs with
      | some (text, rest) => some (.text (String.ofList text), rest)
      | none => word? cs

/-- Read the values of an array up to its closing bracket. -/
def items? : Nat → List Char → Option (List Value × List Char)
  | 0, _ => none
  | fuel + 1, cs =>
    match skipLines false cs with
    | ']' :: after => some ([], after)
    | cs =>
      match value? fuel cs with
      | none => none
      | some (v, rest) =>
        match skipLines false rest with
        | ',' :: more => (items? fuel more).map fun (vs, after) => (v :: vs, after)
        | ']' :: after => some ([v], after)
        | _ => none

def entries? : Nat → Entries → List Char → Option (Entries × List Char)
  | 0, _, _ => none
  | fuel + 1, es, cs =>
    match keyPath? cs with
    | some (path, '=' :: rest) =>
      match value? fuel (skipSpaces rest) with
      | none => none
      | some (v, rest) =>
        match insert? v path es, skipSpaces rest with
        | some es, ',' :: more => entries? fuel es more
        | some es, '\x7d' :: after => some (es, after)
        | _, _ => none
    | _ => none

end

/-! ## Documents -/

/-- Read the lines of a text: entries, which go into the table of the last header, and headers. -/
def document? : Nat → List String → Entries → List Char → Option Entries
  | 0, _, _, _ => none
  | fuel + 1, header, es, cs =>
    match skipLines false cs with
    | [] => some es
    | '[' :: rest =>
      match keyPath? rest with
      | some (path, ']' :: after) =>
        match defineTable? path es, lineEnd? after with
        | some es, some rest => document? fuel path es rest
        | _, _ => none
      | _ => none
    | cs =>
      match keyPath? cs with
      | some (path, '=' :: rest) =>
        match value? fuel (skipSpaces rest) with
        | none => none
        | some (v, rest) =>
          match insertUnder? v path header es, lineEnd? rest with
          | some es, some rest => document? fuel header es rest
          | _, _ => none
      | _ => none

/-- Read a text. A mark of byte order may stand in front. -/
def parse? (text : String) : Option Entries :=
  let cs := match text.toList with
    | '\ufeff' :: rest => rest
    | cs => cs
  (normalize? cs).bind fun cs => document? (cs.length + 2) [] [] cs

end BatchShell.Toml
