/-!
# White space

The characters that separate words, and the cutting and splitting of text at them. White space is the
Unicode property of that name; twenty-five characters have it.

* `trimStart`, `trimEnd`, `trim` cut white space off the ends of a text.
* `fields` lists the runs between separators; `fields_append` and `fields_run` compute them.
* `splitBlanks` lists the words between white space.
-/
namespace BatchShell.Text

/-- A character with the Unicode property White_Space. -/
def isBlank (c : Char) : Bool :=
  let n := c.toNat
  (9 ≤ n && n ≤ 13) || n == 0x20 || n == 0x85 || n == 0xA0 || n == 0x1680 ||
  (0x2000 ≤ n && n ≤ 0x200A) || n == 0x2028 || n == 0x2029 || n == 0x202F || n == 0x205F ||
  n == 0x3000

def dropStart (p : Char → Bool) (s : String) : String :=
  String.ofList (s.toList.dropWhile p)

def dropEnd (p : Char → Bool) (s : String) : String :=
  String.ofList (s.toList.reverse.dropWhile p).reverse

def trimStart (s : String) : String := dropStart isBlank s

def trimEnd (s : String) : String := dropEnd isBlank s

def trim (s : String) : String := trimEnd (trimStart s)

/-- The non-empty pieces of `cs` between characters that satisfy `p`; `word` is the piece being read,
last character first. -/
def fieldsAux (p : Char → Bool) : List Char → List Char → List (List Char)
  | word, [] => if word.isEmpty then [] else [word.reverse]
  | word, c :: cs =>
    if p c then
      if word.isEmpty then fieldsAux p [] cs else word.reverse :: fieldsAux p [] cs
    else fieldsAux p (c :: word) cs

/-- The maximal runs of characters that do not satisfy `p`, in order. -/
def fields (p : Char → Bool) (cs : List Char) : List (List Char) := fieldsAux p [] cs

theorem fieldsAux_append {p : Char → Bool} {c : Char} (hc : p c = true) (word as bs : List Char) :
    fieldsAux p word (as ++ c :: bs) = fieldsAux p word as ++ fields p bs := by
  induction as generalizing word with
  | nil => by_cases hword : word.isEmpty <;> simp [fieldsAux, fields, hc, hword]
  | cons a as ih =>
    by_cases ha : p a
    · by_cases hword : word.isEmpty <;> simp [fieldsAux, ha, hword, ih]
    · simp [fieldsAux, ha, ih]

/-- A separator divides the runs into those before it and those behind it. -/
theorem fields_append {p : Char → Bool} {c : Char} (hc : p c = true) (as bs : List Char) :
    fields p (as ++ c :: bs) = fields p as ++ fields p bs :=
  fieldsAux_append hc [] as bs

theorem fieldsAux_run {p : Char → Bool} {cs : List Char} (h : ∀ c ∈ cs, p c = false) (word : List Char) :
    fieldsAux p word cs = fieldsAux p (cs.reverse ++ word) [] := by
  induction cs generalizing word with
  | nil => rfl
  | cons c cs ih =>
    obtain ⟨hc, hcs⟩ := List.forall_mem_cons.mp h
    simp [fieldsAux, hc, ih hcs]

theorem fields_run {p : Char → Bool} {cs : List Char} (hne : cs ≠ []) (h : ∀ c ∈ cs, p c = false) :
    fields p cs = [cs] := by
  rw [fields, fieldsAux_run h]
  simp [fieldsAux, hne]

theorem mem_fieldsAux {p : Char → Bool} {cs word run : List Char} (hword : ∀ c ∈ word, p c = false)
    (h : run ∈ fieldsAux p word cs) : run ≠ [] ∧ ∀ c ∈ run, p c = false := by
  induction cs generalizing word with
  | nil =>
    simp only [fieldsAux] at h
    split at h
    · cases h
    · rename_i hne
      rw [List.mem_singleton.mp h]
      exact ⟨by simpa using hne, fun c hc => hword c (List.mem_reverse.mp hc)⟩
  | cons c cs ih =>
    have hnil : ∀ c ∈ ([] : List Char), p c = false := by simp
    simp only [fieldsAux] at h
    split at h
    · split at h
      · exact ih hnil h
      · rename_i hne
        obtain rfl | h := List.mem_cons.mp h
        · exact ⟨by simpa using hne, fun c hc => hword c (List.mem_reverse.mp hc)⟩
        · exact ih hnil h
    · rename_i hc
      exact ih (List.forall_mem_cons.mpr ⟨by simpa using hc, hword⟩) h

theorem mem_fields {p : Char → Bool} {cs run : List Char} (h : run ∈ fields p cs) :
    run ≠ [] ∧ ∀ c ∈ run, p c = false :=
  mem_fieldsAux (by simp) h

def splitBlanks (s : String) : List String := (fields isBlank s.toList).map String.ofList

end BatchShell.Text
