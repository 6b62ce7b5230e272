import BatchShell.Expansion.Modifiers

/-!
# Loop variables

Inside the body of a loop a percent sign before a bound letter stands for the letter's value, and a tilde
between them takes parts of it. Letters are looked up from the innermost loop outwards, and their case
matters. Anything else stays as it is.
-/
namespace BatchShell

/-- The letters that one active loop binds, with their values. -/
abbrev LoopFrame := List (Char × String)

namespace Expansion

/-- The value of a letter in the active loops, innermost first. -/
def loopValue? (loops : List LoopFrame) (c : Char) : Option String :=
  loops.findSome? fun frame => frame.lookup c

/-- The value and the rest of the text at a percent sign and a tilde, `cs` being what follows. The
letters that take parts end before a bound letter; if none follows them, the last of them may itself be
the bound letter. -/
def partsOfLoopValue? (files : FileTree) (cwd : String) (loops : List LoopFrame) (cs : List Char) :
    Option (String × List Char) :=
  let letters := cs.takeWhile isModifier
  let after := cs.dropWhile isModifier
  match after.head?.bind (loopValue? loops) with
  | some value => some (applyModifiers files cwd value letters, after.drop 1)
  | none =>
    (letters.getLast?.bind (loopValue? loops)).map fun value =>
      (applyModifiers files cwd value letters.dropLast, after)

/-- The value and the rest of the text at a percent sign, `cs` being what follows it. -/
def loopReference? (files : FileTree) (cwd : String) (loops : List LoopFrame) :
    List Char → Option (String × List Char)
  | [] => none
  | c :: cs =>
    if c == '~' then partsOfLoopValue? files cwd loops cs
    else (loopValue? loops c).map fun value => (value, cs)

theorem length_loopReference?_le {files : FileTree} {cwd : String} {loops : List LoopFrame}
    {cs : List Char} {value : String} {rest : List Char}
    (h : loopReference? files cwd loops cs = some (value, rest)) : rest.length ≤ cs.length := by
  cases cs with
  | nil => simp [loopReference?] at h
  | cons c cs =>
    have shorter : (cs.dropWhile isModifier).length ≤ cs.length :=
      (List.dropWhile_suffix _).length_le
    simp only [loopReference?] at h
    split at h
    · simp only [partsOfLoopValue?] at h
      split at h
      · simp only [Option.some.injEq, Prod.mk.injEq] at h
        rw [← h.2]
        simp
        omega
      · simp only [Option.map_eq_some_iff, Prod.mk.injEq] at h
        obtain ⟨_, _, _, rfl⟩ := h
        simp
        omega
    · simp only [Option.map_eq_some_iff, Prod.mk.injEq] at h
      obtain ⟨_, _, _, rfl⟩ := h
      simp

def fillFrom (files : FileTree) (cwd : String) (loops : List LoopFrame) : List Char → List Char
  | [] => []
  | c :: cs =>
    if c == '%' then
      match _h : loopReference? files cwd loops cs with
      | some (value, rest) => value.toList ++ fillFrom files cwd loops rest
      | none => c :: fillFrom files cwd loops cs
    else c :: fillFrom files cwd loops cs
  termination_by cs => cs.length
  decreasing_by
    · exact Nat.lt_succ_of_le (length_loopReference?_le _h)
    · simp
    · simp

/-- Fill in the loop variables of a text, if any loop is active. -/
def fillLoopVars (files : FileTree) (cwd : String) (loops : List LoopFrame) (text : String) : String :=
  if loops.isEmpty then text else String.ofList (fillFrom files cwd loops text.toList)

end Expansion

end BatchShell
