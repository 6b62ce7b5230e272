/-!
# Regular expressions

A stand-in for the library of regular expressions: expressions over characters, and whether one occurs in a
text. Letter case, words and the named classes know the ASCII characters only.

A set of positions in a text of `n` characters is a list of `n + 1` truth values. `Regex.ends` maps the
positions where an expression may start to those where it may end; `Regex.occurs` asks whether any end is
reached when every position is a start.
-/
namespace BatchShell

/-- A character class, or a part of one: characters in some ranges of code points, or outside of all. -/
structure ClassItem where
  negated : Bool
  ranges : List (Nat × Nat)
  deriving DecidableEq

inductive Look where
  | start
  | stop
  /-- The start of a line; `crlf` lets a carriage return end a line too. -/
  | lineStart (crlf : Bool)
  | lineStop (crlf : Bool)
  | wordBoundary
  | notWordBoundary
  | wordStart
  | wordStop
  /-- No word character before. -/
  | wordStartHalf
  /-- No word character after. -/
  | wordStopHalf
  deriving DecidableEq

inductive Regex where
  | empty
  /-- One character of a class. -/
  | set (ignoreCase negated : Bool) (items : List ClassItem)
  | look (look : Look)
  | concat (left right : Regex)
  | either (left right : Regex)
  /-- At least `least` and at most `most` times. -/
  | times (body : Regex) (least : Nat) (most : Option Nat)
  deriving DecidableEq

namespace ClassItem

def holds (item : ClassItem) (c : Char) : Bool :=
  item.ranges.any (fun (first, last) => first ≤ c.toNat && c.toNat ≤ last) != item.negated

def single (c : Char) : ClassItem := ⟨false, [(c.toNat, c.toNat)]⟩

end ClassItem

def isWordChar (c : Char) : Bool := c.isAlphanum || c == '_'

namespace Look

/-- Does a position with these neighbours satisfy a look? -/
def holds (look : Look) (before after : Option Char) : Bool :=
  let wordBefore := (before.map isWordChar).getD false
  let wordAfter := (after.map isWordChar).getD false
  match look with
  | .start => before.isNone
  | .stop => after.isNone
  | .lineStart false => before.isNone || before == some '\n'
  | .lineStart true =>
    before.isNone || before == some '\n' || (before == some '\r' && after != some '\n')
  | .lineStop false => after.isNone || after == some '\n'
  | .lineStop true =>
    after.isNone || after == some '\r' || (after == some '\n' && before != some '\r')
  | .wordBoundary => wordBefore != wordAfter
  | .notWordBoundary => wordBefore == wordAfter
  | .wordStart => !wordBefore && wordAfter
  | .wordStop => wordBefore && !wordAfter
  | .wordStartHalf => !wordBefore
  | .wordStopHalf => !wordAfter

end Look

namespace Regex

abbrev Positions := List Bool

def classHolds (ignoreCase negated : Bool) (items : List ClassItem) (c : Char) : Bool :=
  let inItems (d : Char) : Bool := items.any (·.holds d)
  (inItems c || (ignoreCase && (inItems c.toUpper || inItems c.toLower))) != negated

/-- The neighbours of each position, the first of which follows `before`. -/
def neighbours (before : Option Char) : List Char → List (Option Char × Option Char)
  | [] => [(before, none)]
  | c :: cs => (before, some c) :: neighbours (some c) cs

def union (a b : Positions) : Positions := List.zipWith (· || ·) a b

def iterate (step : Positions → Positions) : Nat → Positions → Positions
  | 0, ps => ps
  | n + 1, ps => iterate step n (step ps)

/-- All positions that at most `n` applications of a map reach. -/
def reach (step : Positions → Positions) : Nat → Positions → Positions
  | 0, ps => ps
  | n + 1, ps => union ps (reach step n (step ps))

/-- Where an expression may end when it starts in a set of positions. A map that only moves forward has
settled after one application for each position, so longer repetitions are cut there. -/
def ends (text : List Char) : Regex → Positions → Positions
  | .empty, ps => ps
  | .set ignoreCase negated items, ps =>
    false :: List.zipWith (fun here c => here && classHolds ignoreCase negated items c) ps text
  | .look asked, ps =>
    List.zipWith (fun here (n : Option Char × Option Char) => here && asked.holds n.1 n.2) ps
      (neighbours none text)
  | .concat left right, ps => ends text right (ends text left ps)
  | .either left right, ps => union (ends text left ps) (ends text right ps)
  | .times body least most, ps =>
    let bound := text.length + 1
    let more := match most with
      | none => bound
      | some n => min (n - least) bound
    reach (ends text body) more (iterate (ends text body) (min least bound) ps)

def occurs (r : Regex) (text : String) : Bool :=
  let cs := text.toList
  (ends cs r (List.replicate (cs.length + 1) true)).any id

def char (ignoreCase : Bool) (c : Char) : Regex := .set ignoreCase false [.single c]

def ofList : List Regex → Regex
  | [] => .empty
  | [r] => r
  | r :: rs => .concat r (ofList rs)

/-- The expression for a text that stands for itself. -/
def literal (ignoreCase : Bool) (text : String) : Regex := ofList (text.toList.map (char ignoreCase))

end Regex

end BatchShell
