import BatchShell.Text.Blank
import BatchShell.Text.Folding

/-!
# Macros for typed lines

A macro replaces a typed line whose first word is its name, in any case. In a definition `$1` to `$9`
stand for the words after the name and `$*` for all of them; `$T`, `$G`, `$L` and `$B` are the signs
`&`, `>`, `<` and `|`, and `$$` is a dollar sign.
-/
namespace BatchShell

structure MacroEntry where
  key : String
  name : String
  definition : String
  deriving DecidableEq

/-- The macros in the order of their lower-case names. -/
structure MacroTable where
  entries : List MacroEntry
  deriving DecidableEq

namespace MacroTable

def empty : MacroTable := ⟨[]⟩

def insert (entry : MacroEntry) : List MacroEntry → List MacroEntry
  | [] => [entry]
  | e :: es =>
    if entry.key < e.key then entry :: e :: es
    else if entry.key == e.key then entry :: es
    else e :: insert entry es

/-- Define a macro; an empty definition deletes it. -/
def define (t : MacroTable) (name definition : String) : MacroTable :=
  let key := Text.lowerCase name
  if definition.isEmpty then ⟨t.entries.filter (·.key != key)⟩
  else ⟨insert ⟨key, name, definition⟩ t.entries⟩

def get? (t : MacroTable) (name : String) : Option String :=
  (t.entries.find? (·.key == Text.lowerCase name)).map (·.definition)

/-- Each macro as name, equals sign and definition. -/
def list (t : MacroTable) : List String := t.entries.map fun e => e.name ++ "=" ++ e.definition

def codeText? (args : List String) (c : Char) : Option String :=
  if '1' ≤ c ∧ c ≤ '9' then some (args.getD (c.toNat - 49) "")
  else match c with
    | '*' => some (" ".intercalate args)
    | '$' => some "$"
    | 'T' | 't' => some "&"
    | 'G' | 'g' => some ">"
    | 'L' | 'l' => some "<"
    | 'B' | 'b' => some "|"
    | _ => none

/-- Fill the words after the name into a definition. A dollar sign that starts no code stays. -/
def fill (args : List String) : List Char → List Char
  | '$' :: c :: cs =>
    match codeText? args c with
    | some text => text.toList ++ fill args cs
    | none => '$' :: fill args (c :: cs)
  | c :: cs => c :: fill args cs
  | [] => []

/-- The line that replaces a typed line, if its first word is a macro. -/
def expandLine? (t : MacroTable) (line : String) : Option String :=
  match Text.splitBlanks line with
  | [] => none
  | name :: args => (t.get? name).map fun d => String.ofList (fill args d.toList)

end MacroTable

end BatchShell
