import BatchShell.Expansion.Reference
import BatchShell.Token.Basic

/-!
# Percent expansion

Runs over the words of a line before it is parsed. In a script a doubled percent sign stands for one,
`%0` to `%9`, `%*` and their path parts are the parameters, an undefined reference vanishes and so does a
percent sign alone. A typed line keeps what it does not define. Values are inserted as they are.
-/
namespace BatchShell.Expansion

/-- What stands in a script for the percent sign before `cs`, if that is a parameter or a doubled sign,
and what follows it. -/
def parameter? (files : FileTree) (s : State) : List Char → Option (String × List Char)
  | [] => none
  | c :: cs =>
    let param (d : Char) : String := (s.params?.map fun p => p.get (d.toNat - 48)).getD ""
    if c == '%' then some ("%", cs)
    else if c.isDigit then some (param c, cs)
    else if c == '*' then some ((s.params?.map (·.all)).getD "", cs)
    else if c == '~' then
      match cs.dropWhile isModifier with
      | d :: rest =>
        if d.isDigit then some (applyModifiers files s.cwd (param d) (cs.takeWhile isModifier), rest)
        else none
      | [] => none
    else none

def endsReference (c : Char) : Bool := c == '%' || c == '\n'

/-- The text up to the closing percent sign on the same line and what follows that sign, if the text is
not empty. -/
def enclosed? (cs : List Char) : Option (List Char × List Char) :=
  let body := cs.takeWhile fun c => !endsReference c
  match cs.dropWhile fun c => !endsReference c with
  | '%' :: rest => if body.isEmpty then none else some (body, rest)
  | _ => none

theorem length_enclosed?_lt {cs body rest : List Char} (h : enclosed? cs = some (body, rest)) :
    rest.length < cs.length := by
  have shorter : (cs.dropWhile fun c => !endsReference c).length ≤ cs.length :=
    (List.dropWhile_suffix _).length_le
  simp only [enclosed?] at h
  split at h
  · rename_i heq
    split at h
    · cases h
    · simp only [Option.some.injEq, Prod.mk.injEq] at h
      rw [heq] at shorter
      simp only [List.length_cons] at shorter
      rw [← h.2]
      omega
  · cases h

theorem length_parameter?_lt {files : FileTree} {s : State} {cs rest : List Char} {value : String}
    (h : parameter? files s cs = some (value, rest)) : rest.length < cs.length := by
  cases cs with
  | nil => simp [parameter?] at h
  | cons c cs =>
    have shorter : (cs.dropWhile isModifier).length ≤ cs.length :=
      (List.dropWhile_suffix _).length_le
    simp only [parameter?] at h
    split at h
    · cases h; simp
    split at h
    · cases h; simp
    split at h
    · cases h; simp
    split at h
    · split at h
      · rename_i heq
        split at h
        · cases h
          rw [heq] at shorter
          simp only [List.length_cons] at shorter ⊢
          omega
        · cases h
      · cases h
    · cases h

/-- Expand a text from left to right. The reference before the last `n` characters is read at the moment
`now n`. -/
def expandFrom (files : FileTree) (now : Nat → Ambient) (s : State) : List Char → Except Crash (List Char)
  | [] => .ok []
  | c :: cs =>
    if c != '%' then (expandFrom files now s cs).map (c :: ·)
    else
      match _h : if s.inBatch then parameter? files s cs else none with
      | some (value, rest) => (expandFrom files now s rest).map (value.toList ++ ·)
      | none =>
        match _h' : enclosed? cs with
        | some (body, rest) =>
          match expandReference? (now cs.length) s (String.ofList body) with
          | .error why => .error why
          | .ok (some value) => (expandFrom files now s rest).map (value.toList ++ ·)
          | .ok none =>
            if s.inBatch then expandFrom files now s rest else (expandFrom files now s cs).map ('%' :: ·)
        | none =>
          if s.inBatch then expandFrom files now s cs else (expandFrom files now s cs).map ('%' :: ·)
  termination_by cs => cs.length
  decreasing_by
    · simp
    · split at _h
      · exact Nat.lt_succ_of_lt (length_parameter?_lt _h)
      · cases _h
    · exact Nat.lt_succ_of_lt (length_enclosed?_lt _h')
    · exact Nat.lt_succ_of_lt (length_enclosed?_lt _h')
    · simp
    · simp
    · simp

def expandPercent (files : FileTree) (now : Nat → Ambient) (s : State) (text : String) :
    Except Crash String :=
  (expandFrom files now s text.toList).map String.ofList

/-- Expand a token. Only words are expanded, and words at different places are read at different moments. -/
def expandToken (files : FileTree) (now : Nat → Ambient) (s : State) (t : Token) : Except Crash Token :=
  match t.lexeme with
  | .word text quoted =>
    (expandPercent files (fun n => now (t.start + n)) s text).map fun text =>
      { t with lexeme := .word text quoted }
  | _ => .ok t

def expandTokens (files : FileTree) (now : Nat → Ambient) (s : State) (ts : List Token) :
    Except Crash (List Token) :=
  ts.mapM (expandToken files now s)

theorem expandTokens_cons (files : FileTree) (now : Nat → Ambient) (s : State) (t : Token) (ts : List Token) :
    expandTokens files now s (t :: ts) = (do
      let u ← expandToken files now s t
      let us ← expandTokens files now s ts
      pure (u :: us)) :=
  List.mapM_cons

theorem expandTokens_cons_eq_ok_iff {files : FileTree} {now : Nat → Ambient} {s : State} {t : Token}
    {ts us : List Token} : expandTokens files now s (t :: ts) = .ok us ↔ ∃ v vs,
      expandToken files now s t = .ok v ∧ expandTokens files now s ts = .ok vs ∧ v :: vs = us := by
  rw [expandTokens_cons, Except.bind_eq_ok_iff]
  refine exists_congr fun v => ?_
  rw [Except.bind_eq_ok_iff]
  simp [pure, Except.pure]

end BatchShell.Expansion
