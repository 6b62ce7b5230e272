import BatchShell.Numeral
import BatchShell.Parser.Error
import BatchShell.Text.Blank
import BatchShell.Text.Split

/-!
# Options for the lines of a loop

A loop over lines splits each line into fields. Its option text says how: `eol=` gives the character that
starts a comment, `skip=` how many lines to pass over, `delims=` the characters between fields, `tokens=`
which fields to bind, and `usebackq` changes the quotes of the set.

* `LineOptions.parse` reads an option text.
* `LineOptions.split` gives the values of a line.
-/
namespace BatchShell.Loop

open Text

/-- How lines are read and split. `tokens` are the numbers of the fields to bind, counted from one and
increasing; with `rest` one more variable takes the remainder of the line. -/
structure LineOptions where
  eol : Option Char
  skip : Nat
  delims : List Char
  tokens : List Nat
  rest : Bool
  useBackQuote : Bool
  deriving DecidableEq

namespace LineOptions

def standard : LineOptions := ⟨some ';', 0, [' ', '\t'], [1], false, false⟩

def sortedNumbers (ns : List Nat) : List Nat :=
  (ns.mergeSort fun a b => decide (a ≤ b)).eraseReps

/-- 2 ^ 60: a number takes eight bytes, and a memory has less than 2 ^ 63. -/
def maxNumbers : Nat := 1152921504606846976

/-- The numbers from `low` to `high`. They are listed before any of them is looked at. -/
def numbersBetween (low high : Nat) : Except Crash (List Nat) :=
  if maxNumbers ≤ high + 1 - low then .error .listTooLong else .ok (List.range' low (high + 1 - low))

/-- The numbers that one part of a token list names: `3` or `1-3`. -/
def partNumbers? (part : String) : Except Crash (Option (List Nat)) :=
  match cutAt '-' part with
  | none => .ok ((Numeral.natural? part).map fun n => [n])
  | some (low, high) =>
    match Numeral.natural? low, Numeral.natural? high with
    | some a, some b => (numbersBetween a b).map some
    | _, _ => .ok none

/-- The numbers of one part, and whether an asterisk behind it asks for the rest of the line. -/
def readPart (part : String) : Except Crash (Option (List Nat × Bool)) :=
  let trimmed := trim part
  let (body, star) := match dropSuffix? "*" trimmed with
    | some before => (before, true)
    | none => (trimmed, false)
  (if body.isEmpty then .ok (some []) else partNumbers? body).map (·.map fun numbers => (numbers, star))

/-- Read the parts of a token list, up to the first that cannot be read. -/
def readParts : List String → Except Crash (Option (List Nat × Bool))
  | [] => .ok (some ([], false))
  | part :: parts =>
    (readPart part).bind fun
      | none => .ok none
      | some (numbers, star) =>
        (readParts parts).map (·.map fun (more, rest) => (numbers ++ more, star || rest))

/-- The token list of an option text. Field numbers go from one to thirty-one, and something has to be
asked for. -/
def tokenList? (text : String) : Except Crash (Option (List Nat × Bool)) :=
  (readParts (pieces (· == ',') text)).map fun read => do
    let (numbers, rest) ← read
    let numbers := sortedNumbers numbers
    if numbers.any (fun n => n == 0 || 31 < n) || (numbers.isEmpty && !rest) then none
    else some (numbers, rest)

def keywords : List (List Char) :=
  ["eol=".toList, "skip=".toList, "delims=".toList, "tokens=".toList, "usebackq".toList]

def afterKeyword? (keyword : String) (cs : List Char) : Option (List Char) :=
  if keyword.toList.isPrefixOf (cs.map Char.toLower) then some (cs.drop keyword.toList.length) else none

def startsKeyword (cs : List Char) : Bool :=
  keywords.any fun k => k.isPrefixOf (cs.map Char.toLower)

/-- Cut a delimiter text where a keyword follows white space; `before` is what was read, last character
first. The cut is never before the first character. -/
def cutDelims (before : List Char) : List Char → List Char × List Char
  | [] => (before.reverse, [])
  | c :: cs =>
    if (before.head?.map isBlank).getD false && startsKeyword (c :: cs) then (before.reverse, c :: cs)
    else cutDelims (c :: before) cs

/-- The delimiters of a delimiter text: white space that only separates it from the next option is left
off, unless nothing else is there. -/
def delimsOf (text : List Char) : List Char :=
  match text.reverse with
  | c :: d :: more => if isBlank c then (d :: more).reverse else text
  | _ => text

theorem length_cutDelims_le (before cs : List Char) : (cutDelims before cs).2.length ≤ cs.length := by
  induction cs generalizing before with
  | nil => simp [cutDelims]
  | cons c cs ih =>
    simp only [cutDelims]
    split
    · exact Nat.le_refl _
    · exact Nat.le_succ_of_le (ih _)

theorem length_afterKeyword? {keyword : String} {cs rest : List Char}
    (h : afterKeyword? keyword cs = some rest) : rest.length + keyword.toList.length = cs.length := by
  simp only [afterKeyword?] at h
  split at h
  · rename_i starts
    have le := (List.isPrefixOf_iff_prefix.1 starts).length_le
    simp only [List.length_map] at le
    cases h
    simp only [List.length_drop]
    omega
  · cases h

inductive Refusal where
  /-- This text was not understood. -/
  | unexpected (text : String)
  | crashed (why : Crash)
  deriving DecidableEq

/-- Read one option at the start of a non-empty text, not white space. -/
def readOne (options : LineOptions) (cs : List Char) :
    Except Refusal (LineOptions × { rest : List Char // rest.length < cs.length }) :=
  match h1 : afterKeyword? "usebackq" cs with
  | some rest =>
    .ok ({ options with useBackQuote := true }, ⟨rest, by
      have := length_afterKeyword? h1
      simp at this
      omega⟩)
  | none =>
  match h2 : afterKeyword? "eol=" cs with
  | some rest =>
    .ok ({ options with eol := rest.head? }, ⟨rest.drop 1, by
      have := length_afterKeyword? h2
      simp at this ⊢
      omega⟩)
  | none =>
  match h3 : afterKeyword? "skip=" cs with
  | some rest =>
    match Numeral.natural? (String.ofList (rest.takeWhile Char.isDigit)) with
    | some n =>
      .ok ({ options with skip := n }, ⟨rest.dropWhile Char.isDigit, by
        have h := length_afterKeyword? h3
        simp at h
        have := (List.dropWhile_suffix (l := rest) Char.isDigit).length_le
        omega⟩)
    | none => .error (.unexpected (String.ofList rest))
  | none =>
  match h4 : afterKeyword? "tokens=" cs with
  | some rest =>
    let text := String.ofList (rest.takeWhile fun c => !isBlank c)
    match tokenList? text with
    | .error why => .error (.crashed why)
    | .ok none => .error (.unexpected text)
    | .ok (some (tokens, star)) =>
      .ok ({ options with tokens := tokens, rest := star }, ⟨rest.dropWhile (fun c => !isBlank c), by
        have h := length_afterKeyword? h4
        simp at h
        have := (List.dropWhile_suffix (l := rest) (fun c => !isBlank c)).length_le
        omega⟩)
  | none =>
  match h5 : afterKeyword? "delims=" cs with
  | some rest =>
    let cut := match rest with
      | [] => ([], [])
      | c :: more => cutDelims [c] more
    .ok ({ options with delims := delimsOf cut.1 }, ⟨cut.2, by
      have h := length_afterKeyword? h5
      simp at h
      cases rest with
      | nil =>
        simp only [cut, List.length_nil] at h ⊢
        omega
      | cons c more =>
        have := length_cutDelims_le [c] more
        simp only [cut, List.length_cons] at h ⊢
        omega⟩)
  | none => .error (.unexpected (String.ofList cs))

def parseFrom (options : LineOptions) : List Char → Except Refusal LineOptions
  | [] => .ok options
  | c :: cs =>
    if isBlank c then parseFrom options cs
    else
      match readOne options (c :: cs) with
      | .error refusal => .error refusal
      | .ok (options', rest) => parseFrom options' rest.val
  termination_by cs => cs.length
  decreasing_by
    · simp
    · exact rest.property

def parse (text : String) : Except Refusal LineOptions := parseFrom standard text.toList

/-- The fields of a line, each with the line from its first character on. -/
def fieldsWithRest (delims : List Char) : List Char → List (List Char × List Char)
  | [] => []
  | c :: cs =>
    if delims.contains c then fieldsWithRest delims cs
    else
      (c :: cs.takeWhile (fun d => !delims.contains d), c :: cs) ::
        fieldsWithRest delims (cs.dropWhile fun d => !delims.contains d)
  termination_by cs => cs.length
  decreasing_by
    · simp
    · exact Nat.lt_succ_of_le (List.dropWhile_suffix _).length_le

/-- The values of a line; `none` passes over an empty line or a comment. -/
def split (options : LineOptions) (line : String) : Option (List String) :=
  match fieldsWithRest options.delims line.toList with
  | [] => none
  | (first, start) :: more =>
    let fields := (first, start) :: more
    if (options.eol.map fun e => start.head? == some e).getD false then none
    else
      let values := options.tokens.map fun n =>
        ((fields[n - 1]?).map fun f => String.ofList f.1).getD ""
      let remainder := ((fields[options.tokens.getLast?.getD 0]?).map fun f => String.ofList f.2).getD ""
      some (if options.rest then values ++ [remainder] else values)

end LineOptions

end BatchShell.Loop
