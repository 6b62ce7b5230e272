import BatchShell.Ambient
import BatchShell.Numeral
import BatchShell.State

/-!
# References to variables

What may stand between two percent signs: a name, perhaps with an edit after a colon. `~start,length`
takes a part of the value, and `old=new` replaces text in it.

* `substring` takes the part.
* `replace` replaces without regard to case.
* `expandReference?` gives the value of a reference.
-/
namespace BatchShell.Expansion

open Text

def add64 (a b : Int) : Except Crash Int :=
  if Numeral.fits64 (a + b) then .ok (a + b) else .error .overflow

/-- The part of a value from `start` on, at most `length` characters long. A negative start counts from
the end, and a negative length leaves that many characters off the end. -/
def substring (value : String) (start : Int) (length : Option Int) : Except Crash String := do
  let cs := value.toList
  let size : Int := cs.length
  let first := if start < 0 then max (size + start) 0 else min start size
  let last ← match length with
    | none => .ok size
    | some n => if n < 0 then .ok (max (size + n) 0) else (add64 first n).map (min · size)
  .ok (String.ofList ((cs.take last.toNat).drop first.toNat))

/-- The rest of `cs` after `pattern`, if `cs` starts with it up to the case of `A` to `Z`. -/
def afterIgnoringCase? : List Char → List Char → Option (List Char)
  | [], cs => some cs
  | _ :: _, [] => none
  | p :: ps, c :: cs => if p.toUpper == c.toUpper then afterIgnoringCase? ps cs else none

theorem length_afterIgnoringCase? {ps cs rest : List Char}
    (h : afterIgnoringCase? ps cs = some rest) : rest.length + ps.length = cs.length := by
  induction ps generalizing cs with
  | nil => simp only [afterIgnoringCase?, Option.some.injEq] at h; simp [h]
  | cons p ps ih =>
    cases cs with
    | nil => simp [afterIgnoringCase?] at h
    | cons c cs =>
      simp only [afterIgnoringCase?] at h
      split at h
      · have := ih h
        simp only [List.length_cons]
        omega
      · cases h

/-- Replace every occurrence of the pattern `p :: ps`, from left to right. -/
def replaceFrom (p : Char) (ps new : List Char) : List Char → List Char
  | [] => []
  | c :: cs =>
    match _h : afterIgnoringCase? (p :: ps) (c :: cs) with
    | some rest => new ++ replaceFrom p ps new rest
    | none => c :: replaceFrom p ps new cs
  termination_by cs => cs.length
  decreasing_by
    · have := length_afterIgnoringCase? _h
      simp only [List.length_cons] at this ⊢
      omega
    · simp

def afterFirst? (pattern : List Char) : List Char → Option (List Char)
  | [] => afterIgnoringCase? pattern []
  | c :: cs =>
    match afterIgnoringCase? pattern (c :: cs) with
    | some rest => some rest
    | none => afterFirst? pattern cs

/-- Replace `old` by `new` in a value, without regard to case. After an asterisk, `old` also takes
everything before its first occurrence. An empty `old` replaces nothing. -/
def replace (value old new : String) : String :=
  match old.toList with
  | [] => value
  | ['*'] => value
  | '*' :: pattern =>
    match afterFirst? pattern value.toList with
    | some rest => new ++ String.ofList rest
    | none => value
  | p :: ps => String.ofList (replaceFrom p ps new.toList value.toList)

def isEditBlank (c : Char) : Bool := c == ' ' || (9 ≤ c.toNat && c.toNat ≤ 13)

/-- Read a decimal with an optional minus sign and the white space around it. -/
def editNumber? (cs : List Char) : Option (String × List Char) :=
  let cs := cs.dropWhile isEditBlank
  let (sign, cs) := match cs with
    | '-' :: rest => (['-'], rest)
    | _ => ([], cs)
  let digits := cs.takeWhile Char.isDigit
  if digits.isEmpty then none
  else some (String.ofList (sign ++ digits), (cs.dropWhile Char.isDigit).dropWhile isEditBlank)

/-- The texts of start and length in an edit `~start` or `~start,length`. -/
def substringEdit? (edit : String) : Option (String × Option String) :=
  match edit.toList with
  | '~' :: cs =>
    match editNumber? cs with
    | some (start, []) => some (start, none)
    | some (start, ',' :: rest) =>
      match editNumber? rest with
      | some (length, []) => some (start, some length)
      | _ => none
    | _ => none
  | _ => none

/-- The variables that are computed when they are read. -/
def dynamicValue? (now : Ambient) (s : State) (name : String) : Option String :=
  match upper name with
  | "CD" => some s.cwd
  | "ERRORLEVEL" => some (toString s.status)
  | "DATE" => some now.date
  | "TIME" => some now.time
  | "RANDOM" => some (toString now.random)
  | "CMDEXTVERSION" => some "2"
  | _ => none

/-- The value of a name; a set variable wins over a computed one. -/
def variableValue? (now : Ambient) (s : State) (name : String) : Option String :=
  match s.env.get? name with
  | some value => some value
  | none => dynamicValue? now s name

/-- The value of an edit applied to `value`, or `none` when it is no edit. A start beyond 64 bits is no
edit; a length beyond 64 bits counts as absent. -/
def applyEdit? (value edit : String) : Except Crash (Option String) :=
  match substringEdit? edit with
  | some (start, length) =>
    match Numeral.decimal64? start with
    | some first => (substring value first (length.bind Numeral.decimal64?)).map some
    | none => .ok none
  | none => .ok ((cutAt '=' edit).map fun (old, new) => replace value old new)

def expandReference? (now : Ambient) (s : State) (body : String) : Except Crash (Option String) :=
  match cutAt ':' body with
  | none => .ok (variableValue? now s body)
  | some (name, edit) =>
    if name.isEmpty then .ok none
    else
      match variableValue? now s name with
      | some value => applyEdit? value edit
      | none => .ok none

end BatchShell.Expansion
