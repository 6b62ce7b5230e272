/-!
# Cutting text

Cuts at a character, searches for a substring, and the division of a text into lines.

* `cutAt` cuts at the first occurrence of a character.
* `pieces` cuts at every occurrence.
* `lines` lists the lines of a text, without their line ends.
-/
namespace BatchShell.Text

/-- What stands before and after the first character of `cs` that satisfies `p`, if there is one. -/
def cutWhere (p : Char → Bool) (cs : List Char) : Option (List Char × List Char) :=
  match cs.dropWhile (fun c => !p c) with
  | [] => none
  | _ :: rest => some (cs.takeWhile (fun c => !p c), rest)

def cutAt (sep : Char) (s : String) : Option (String × String) :=
  (cutWhere (· == sep) s.toList).map fun (a, b) => (String.ofList a, String.ofList b)

theorem not_sep_of_not_mem {sep : Char} {cs : List Char} (h : sep ∉ cs) : ∀ c ∈ cs, (!(c == sep)) = true := by
  intro c hc
  simp only [Bool.not_eq_true', beq_eq_false_iff_ne]
  rintro rfl
  exact h hc

theorem cutAt_of_not_mem {sep : Char} {s : String} (h : sep ∉ s.toList) : cutAt sep s = none := by
  have hdrop : s.toList.dropWhile (fun c => !(c == sep)) = [] := by
    rw [← List.append_nil s.toList, List.dropWhile_append_of_pos (not_sep_of_not_mem h), List.dropWhile_nil]
  rw [cutAt, cutWhere, hdrop]
  rfl

/-- The cut is made at the first `sep`. -/
theorem cutAt_append {sep : Char} {a : String} (h : sep ∉ a.toList) (b : String) :
    cutAt sep (a ++ String.singleton sep ++ b) = some (a, b) := by
  have hchars : (a ++ String.singleton sep ++ b).toList = a.toList ++ sep :: b.toList := by simp
  have hinside := not_sep_of_not_mem h
  rw [cutAt, cutWhere, hchars, List.dropWhile_append_of_pos hinside, List.takeWhile_append_of_pos hinside]
  simp

/-- The pieces of `cs` between characters that satisfy `p`, empty pieces included; `piece` is the
piece being read, last character first. -/
def piecesAux (p : Char → Bool) : List Char → List Char → List (List Char)
  | piece, [] => [piece.reverse]
  | piece, c :: cs => if p c then piece.reverse :: piecesAux p [] cs else piecesAux p (c :: piece) cs

/-- The pieces of `s` between characters that satisfy `p`, empty pieces included. -/
def pieces (p : Char → Bool) (s : String) : List String :=
  (piecesAux p [] s.toList).map String.ofList

def holds (p : Char → Bool) (s : String) : Bool := s.toList.any p

/-- The rest of `cs` after `head`, if `cs` starts with it. -/
def afterPrefix? : List Char → List Char → Option (List Char)
  | [], cs => some cs
  | _ :: _, [] => none
  | h :: head, c :: cs => if h == c then afterPrefix? head cs else none

def dropPrefix? (head s : String) : Option String :=
  (afterPrefix? head.toList s.toList).map String.ofList

def dropSuffix? (last s : String) : Option String :=
  (afterPrefix? last.toList.reverse s.toList.reverse).map fun cs => String.ofList cs.reverse

def occursIn (needle : List Char) : List Char → Bool
  | [] => needle.isEmpty
  | c :: cs => needle.isPrefixOf (c :: cs) || occursIn needle cs

def contains (hay needle : String) : Bool := occursIn needle.toList hay.toList

def replaceChar (old new : Char) (s : String) : String := s.map fun c => if c == old then new else c

/-- The lines of a text. A line feed ends a line, carriage returns before it belong to the line end,
and a last line needs no line feed. -/
def lines (s : String) : List String :=
  let parts := pieces (· == '\n') s
  let whole := if parts.getLast? == some "" then parts.dropLast else parts
  whole.map fun l => String.ofList (l.toList.reverse.dropWhile (· == '\r')).reverse

end BatchShell.Text
