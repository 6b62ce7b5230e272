import BatchShell.Expansion.Modifiers
import BatchShell.Proofs.Path.Normal

/-!
# The parts of a full path

The letters after a percent sign and a tilde cut a full path at two places: behind the last slash, and before the last
dot of the name that follows, unless that dot is the first character of the name. The pieces are cut independently of
each other, and put together they are the path again.

* `splitName_of_dot`, `splitName_of_no_dot`: where a name is cut.
* `exists_cut`: where the path is cut.
* `pathParts_eq`: what the letters take of the path.
* `pathParts_partition`: what the modifiers make of a value, whatever the order, case and repetition of the letters.
-/
namespace BatchShell

namespace Path

/-! ## Names -/

/-- A name is cut at its last dot, if something stands before it. -/
theorem splitName_of_dot {stem rest : List Char} (hstem : stem ≠ []) (hrest : '.' ∉ rest) :
    splitName (String.ofList (stem ++ '.' :: rest)) = (String.ofList stem, String.ofList ('.' :: rest)) := by
  have hinside : ∀ c ∈ rest.reverse, (c != '.') = true :=
    Text.not_sep_of_not_mem fun hdot => hrest (List.mem_reverse.mp hdot)
  have htail : (stem ++ '.' :: rest).reverse.takeWhile (· != '.') = rest.reverse := by
    rw [List.reverse_append, List.reverse_cons, List.append_assoc, List.takeWhile_append_of_pos hinside]
    simp
  have hlength : (stem ++ '.' :: rest).length = stem.length + rest.length + 1 := by simp +arith
  have hbefore : (stem ++ '.' :: rest).take ((stem ++ '.' :: rest).length - rest.reverse.length - 1) = stem := by
    apply List.take_left'
    rw [hlength, List.length_reverse]
    omega
  have hcut : (rest.reverse.length == (stem ++ '.' :: rest).length) = false := by
    rw [hlength, List.length_reverse, beq_eq_false_iff_ne]
    omega
  simp only [splitName, String.toList_ofList, htail, hbefore, hcut, List.reverse_reverse,
    List.isEmpty_eq_false_iff.mpr hstem, Bool.or_false, Bool.false_eq_true, if_false]

/-- A name without a dot behind its first character is not cut. -/
theorem splitName_of_no_dot {name : String} (h : '.' ∉ name.toList.tail) : splitName name = (name, "") := by
  unfold splitName
  dsimp only
  split
  · rfl
  · rename_i hcut
    -- a dot that is not the first character would stand in the tail
    exfalso
    simp only [Bool.or_eq_true, beq_iff_eq, List.isEmpty_iff, not_or] at hcut
    obtain ⟨hdot, hbefore⟩ := hcut
    cases hname : name.toList with
    | nil => simp [hname] at hdot
    | cons c rest =>
      rw [hname, List.tail_cons] at h
      have hinside : ∀ d ∈ rest.reverse, (d != '.') = true :=
        Text.not_sep_of_not_mem fun hdot => h (List.mem_reverse.mp hdot)
      rw [hname, List.reverse_cons, List.takeWhile_append_of_pos hinside] at hdot hbefore
      by_cases hc : c = '.'
      · simp [hc] at hbefore
      · simp [hc] at hdot

/-- Both cases, for any name: it is its stem and its extension, and the extension is empty or starts with the last
dot. -/
theorem splitName_cases (name : String) :
    (splitName name = (name, "") ∧ '.' ∉ name.toList.tail) ∨
      ∃ stem rest : String, stem ≠ "" ∧ '.' ∉ rest.toList ∧ name = stem ++ "." ++ rest ∧
        splitName name = (stem, "." ++ rest) := by
  by_cases h : '.' ∈ name.toList.tail
  · obtain ⟨after, before, hsplit, hafter⟩ := List.eq_append_cons_of_mem (List.mem_reverse.mpr h)
    have htail : name.toList.tail = before.reverse ++ '.' :: after.reverse := by
      rw [← List.reverse_reverse name.toList.tail, hsplit]
      simp
    obtain ⟨c, rest, hname⟩ := List.exists_cons_of_ne_nil (l := name.toList) (by rintro hnil; simp [hnil] at h)
    rw [hname, List.tail_cons] at htail
    have hwhole : name = String.ofList ((c :: before.reverse) ++ '.' :: after.reverse) := by
      rw [List.cons_append, ← htail, ← hname, String.ofList_toList]
    refine .inr ⟨String.ofList (c :: before.reverse), String.ofList after.reverse, ?_, ?_, ?_, ?_⟩
    · simp
    · simpa using hafter
    · rw [hwhole]
      apply String.toList_inj.mp
      simp
    · rw [hwhole, splitName_of_dot (List.cons_ne_nil _ _) (by simpa using hafter)]
      congr 1
      apply String.toList_inj.mp
      simp
  · exact .inl ⟨splitName_of_no_dot h, h⟩

/-! ## Directories -/

/-- What stands before the last slash of the absolute path with some components and one more. -/
def frontText (ps : List String) : String := if ps = [] then "" else render true ps

theorem render_concat (ps : List String) (name : String) :
    render true (ps ++ [name]) = frontText ps ++ "/" ++ name := by
  unfold frontText
  split
  · rename_i hnil
    subst hnil
    simp [render]
  · rename_i hne
    have hname : "/".intercalate [name] = name := String.intercalate_singleton
    rw [render, String.intercalate_append_of_ne_nil hne (List.cons_ne_nil name []), hname, render]
    simp only [String.append_assoc]

theorem getLast?_frontText {ps : List String} (h : ∀ c ∈ ps, IsComponent c) :
    (frontText ps).toList.getLast? ≠ some '/' := by
  intro hlast
  obtain rfl | ⟨init, last, rfl⟩ := List.eq_nil_or_concat' ps
  · cases hlast
  · obtain ⟨hne, hslash⟩ := h last (by simp)
    have hlast' : last.toList ≠ [] := by simpa using hne
    rw [frontText, if_neg (List.concat_ne_nil _ _), render_concat, String.toList_append,
      List.getLast?_append_of_ne_nil _ hlast'] at hlast
    exact hslash (List.mem_of_getLast? hlast)

/-- A full path is cut at its last slash, into a directory and a name. -/
structure Cut (full dir name : String) : Prop where
  whole : full = dir ++ "/" ++ name
  directory_end : dir.toList.getLast? ≠ some '/'
  fileName : fileName? full = some name
  parent : parentText full = if dir = "" then "/" else dir

/-- **Where a full path is cut.** It ends in a name, if it is not the root and has no `..` left. -/
theorem exists_cut {p : String} (habsolute : isAbsolute p = true) (hne : components (normalize p) ≠ [])
    (hup : ".." ∉ components (normalize p)) :
    ∃ dir name, (components (normalize p)).getLast? = some name ∧ Cut (normalize p) dir name := by
  have hfull : isAbsolute (normalize p) = true := (isAbsolute_normalize p).trans habsolute
  have hdot : "." ∉ components (normalize p) := by
    intro hdot
    rw [(normalize_eq_dot hdot).1] at habsolute
    cases habsolute
  have hparts : parts (normalize p) = components (normalize p) :=
    List.filter_eq_self.mpr fun c hc => bne_iff_ne.mpr fun hcdot => hdot (hcdot ▸ hc)
  have hcomponents : ∀ c ∈ components (normalize p), IsComponent c := fun c => isComponent_of_mem
  have hrender : normalize p = render true (components (normalize p)) := by
    have hnot : ¬ (isAbsolute p = false ∧ (route p).folded = []) := by simp [habsolute]
    rw [components_normalize, if_neg hnot, normalize_eq, if_neg hnot, habsolute]
  obtain ⟨init, name, hlast⟩ := (List.eq_nil_or_concat' (components (normalize p))).resolve_left hne
  rw [hlast] at hrender hup hparts hcomponents
  have hname : (init ++ [name]).getLast? = some name := List.getLast?_concat
  refine ⟨frontText init, name, by rw [hlast, hname], ?_, ?_, ?_, ?_⟩
  · exact hrender.trans (render_concat init name)
  · exact getLast?_frontText fun c hc => hcomponents c (List.mem_append_left _ hc)
  · have hplain : name ≠ ".." := by
      rintro rfl
      exact hup (by simp)
    rw [fileName?, hparts, hname, Option.bind_some, if_neg (by simpa using hplain)]
  · have hparent : parentText (normalize p) = render true init := by
      unfold parentText
      rw [hparts, hfull]
      split
      · rename_i hnil
        exact absurd hnil (List.concat_ne_nil _ _)
      · rw [List.dropLast_concat]
    rw [hparent, frontText]
    split
    · rename_i hnil
      rw [hnil, if_pos rfl]
      rfl
    · rw [if_neg (by simp [render])]

end Path

namespace Expansion

/-! ## Letters -/

/-- The modifiers are these letters, in any order and case, each at least once. -/
def Asks (modifiers : List Char) (letters : String) : Prop :=
  ∀ c, c ∈ modifiers.map Char.toLower ↔ c ∈ letters.toList

instance (modifiers : List Char) (letters : String) : Decidable (Asks modifiers letters) :=
  decidable_of_iff (modifiers.map Char.toLower ⊆ letters.toList ∧ letters.toList ⊆ modifiers.map Char.toLower)
    ⟨fun h _ => ⟨(h.1 ·), (h.2 ·)⟩, fun h => ⟨fun c => (h c).mp, fun c => (h c).mpr⟩⟩

section

variable {files : FileTree} {cwd value full dir name : String} {modifiers letters : List Char}

theorem Asks.contains {letters : String} (h : Asks modifiers letters) (c : Char) :
    (modifiers.map Char.toLower).contains c = letters.toList.contains c := by
  rw [Bool.eq_iff_iff, List.contains_iff_mem, List.contains_iff_mem]
  exact h c

/-- Letters for parts of the path only: nothing but these parts is written. -/
theorem applyModifiers_eq {letters : String} (hplain : dequote value ≠ "") (h : Asks modifiers letters)
    (hne : letters ≠ "") (hletters : letters.toList ⊆ "fdpnx".toList) :
    applyModifiers files cwd value modifiers =
      pathParts (Path.resolve cwd (dequote value)) (modifiers.map Char.toLower) := by
  have hother : ∀ c, c ∉ "fdpnx".toList → (modifiers.map Char.toLower).contains c = false := by
    intro c hc
    rw [h.contains, ← Bool.not_eq_true, List.contains_iff_mem]
    exact fun hmem => hc (hletters hmem)
  obtain ⟨c, rest, hc⟩ := List.exists_cons_of_ne_nil (l := letters.toList) (by simpa using hne)
  have hmem : c ∈ modifiers.map Char.toLower := (h c).mpr (hc ▸ List.mem_cons_self)
  have hsome : (modifiers.map Char.toLower).any (fun c => "fdpnx".toList.contains c) = true :=
    List.any_eq_true.mpr ⟨c, hmem, List.contains_iff_mem.mpr (hletters (hc ▸ List.mem_cons_self))⟩
  have hempty : (modifiers.map Char.toLower).isEmpty = false := by
    rw [List.isEmpty_eq_false_iff]
    exact List.ne_nil_of_mem hmem
  have hvalue : (dequote value).isEmpty = false := by
    rw [← Bool.not_eq_true, String.isEmpty_iff]
    exact hplain
  simp only [applyModifiers, hempty, hvalue, hother 'a' (by decide), hother 't' (by decide), hother 'z' (by decide),
    hsome, Bool.or_false, Bool.false_eq_true, if_false, if_true]
  generalize pathParts _ _ = text
  by_cases htext : text = "" <;> simp [htext]

/-! ## Cutting -/

theorem driveText_eq_empty (h : full.toList[1]? ≠ some ':') : driveText full = "" := by
  unfold driveText
  split
  · rename_i hchars
    simp [hchars] at h
  · rfl

theorem dropDrive_eq_self (h : full.toList[1]? ≠ some ':') : dropDrive full = full := by
  unfold dropDrive
  split
  · rename_i hchars
    simp [hchars] at h
  · rfl

/-- The directory is written up to the last slash. -/
theorem directoryText_eq (hcut : Path.Cut full dir name) (hcolon : full.toList[1]? ≠ some ':') :
    directoryText full = dir ++ "/" := by
  have hdrive : (dir ++ "/").toList[1]? ≠ some ':' := by
    intro h
    apply hcolon
    rw [hcut.whole, String.toList_append, List.getElem?_append_left (List.getElem?_eq_some_iff.mp h).1, h]
  unfold directoryText
  rw [hcut.parent]
  split
  · rename_i hroot
    rw [hroot]
    decide
  · dsimp only
    rw [if_neg (by simpa using hcut.directory_end), dropDrive_eq_self hdrive]

/-- **What the letters take.** The drive is empty, and each of the other letters takes its piece. -/
theorem pathParts_eq (hcut : Path.Cut full dir name) (hcolon : full.toList[1]? ≠ some ':') (hf : 'f' ∉ letters)
    (hany : ∃ c ∈ letters, c ∈ "dpnx".toList) :
    pathParts full letters = (if 'p' ∈ letters then dir ++ "/" else "") ++
      (if 'n' ∈ letters then (Path.splitName name).1 else "") ++
      (if 'x' ∈ letters then (Path.splitName name).2 else "") := by
  have hasks : ∀ c, (letters.contains c || letters.contains 'f') = decide (c ∈ letters) := by
    intro c
    rw [Bool.eq_iff_iff]
    simp [hf]
  have hany' : letters.any (fun c => "dpnx".toList.contains c) = true := by
    obtain ⟨c, hc, hdpnx⟩ := hany
    exact List.any_eq_true.mpr ⟨c, hc, List.contains_iff_mem.mpr hdpnx⟩
  simp only [pathParts, hany', hasks, hcut.fileName, Option.getD_some, driveText_eq_empty hcolon,
    directoryText_eq hcut hcolon, Bool.not_true, Bool.false_eq_true, if_false, ite_self,
    String.empty_append, decide_eq_true_eq]

/-- What modifiers other than `f` make of a value. -/
theorem applyModifiers_cut {letters : String} (hplain : dequote value ≠ "")
    (hcut : Path.Cut (Path.resolve cwd (dequote value)) dir name)
    (hcolon : (Path.resolve cwd (dequote value)).toList[1]? ≠ some ':') (h : Asks modifiers letters)
    (hne : letters ≠ "") (hletters : letters.toList ⊆ "dpnx".toList) :
    applyModifiers files cwd value modifiers = (if 'p' ∈ letters.toList then dir ++ "/" else "") ++
      (if 'n' ∈ letters.toList then (Path.splitName name).1 else "") ++
      (if 'x' ∈ letters.toList then (Path.splitName name).2 else "") := by
  have hf : 'f' ∉ modifiers.map Char.toLower := fun hmem => absurd (hletters ((h 'f').mp hmem)) (by decide)
  obtain ⟨c, rest, hc⟩ := List.exists_cons_of_ne_nil (l := letters.toList) (by simpa using hne)
  have hmem : c ∈ letters.toList := hc ▸ List.mem_cons_self
  rw [applyModifiers_eq hplain h hne fun _ hc => List.mem_cons_of_mem 'f' (hletters hc),
    pathParts_eq hcut hcolon hf ⟨c, (h c).mpr hmem, hletters hmem⟩]
  simp only [h 'p', h 'n', h 'x']

/-- `f` takes the path as it is. -/
theorem applyModifiers_full (hplain : dequote value ≠ "") (h : Asks modifiers "f") :
    applyModifiers files cwd value modifiers = Path.resolve cwd (dequote value) := by
  have hnone : (modifiers.map Char.toLower).any (fun c => "dpnx".toList.contains c) = false := by
    rw [List.any_eq_false]
    intro c hc
    obtain rfl := List.mem_singleton.mp ((h c).mp hc)
    decide
  rw [applyModifiers_eq hplain h (by decide) (by decide), pathParts, hnone]
  rfl

end

/-- **The parts of a path put together are the path.** A value that leads from an absolute directory to a name has a
full path, which is what `f` gives: a directory, a slash and the name. The name is a stem and an extension, which starts
with the last dot of the name, and is empty if no dot stands behind the first character. The modifiers take these
pieces in whatever order and case their letters are written, and however often: drive, directory, stem and extension
give the full path, stem and extension the name, drive and directory what stands before the name. -/
theorem pathParts_partition (files : FileTree) (cwd value : String) (hcwd : Path.isAbsolute cwd = true)
    (hvalue : dequote value ≠ "") (hne : Path.components (Path.resolve cwd (dequote value)) ≠ [])
    (hup : ".." ∉ Path.components (Path.resolve cwd (dequote value)))
    (hcolon : (Path.resolve cwd (dequote value)).toList[1]? ≠ some ':') :
    ∃ dir name stem ext : String,
      (Path.components (Path.resolve cwd (dequote value))).getLast? = some name ∧
      Path.resolve cwd (dequote value) = dir ++ "/" ++ name ∧ dir.toList.getLast? ≠ some '/' ∧
      name = stem ++ ext ∧
      ((stem ≠ "" ∧ ∃ rest : String, ext = "." ++ rest ∧ '.' ∉ rest.toList) ∨
        (ext = "" ∧ '.' ∉ name.toList.tail)) ∧
      ∀ modifiers,
        (Asks modifiers "f" → applyModifiers files cwd value modifiers = Path.resolve cwd (dequote value)) ∧
        (Asks modifiers "dpnx" → applyModifiers files cwd value modifiers = Path.resolve cwd (dequote value)) ∧
        (Asks modifiers "nx" → applyModifiers files cwd value modifiers = name) ∧
        (Asks modifiers "dp" → applyModifiers files cwd value modifiers = dir ++ "/") ∧
        (Asks modifiers "n" → applyModifiers files cwd value modifiers = stem) ∧
        (Asks modifiers "x" → applyModifiers files cwd value modifiers = ext) := by
  obtain ⟨dir, name, hlast, hcut⟩ := Path.exists_cut (Path.isAbsolute_join hcwd (Path.typed (dequote value))) hne hup
  rw [← Path.resolve_eq] at hlast hcut
  have hwhole : name = (Path.splitName name).1 ++ (Path.splitName name).2 := by
    obtain ⟨hsplit, -⟩ | ⟨stem, rest, -, -, hname, hsplit⟩ := Path.splitName_cases name
    · rw [hsplit, String.append_empty]
    · rw [hsplit, hname, String.append_assoc]
  refine ⟨dir, name, (Path.splitName name).1, (Path.splitName name).2, hlast, hcut.whole, hcut.directory_end,
    hwhole, ?_, fun modifiers => ?_⟩
  · obtain ⟨hsplit, hdot⟩ | ⟨stem, rest, hstem, hrest, -, hsplit⟩ := Path.splitName_cases name
    · rw [hsplit]
      exact .inr ⟨rfl, hdot⟩
    · rw [hsplit]
      exact .inl ⟨hstem, rest, rfl, hrest⟩
  · have htakes : ∀ letters : String, letters ≠ "" → letters.toList ⊆ "dpnx".toList →
        Asks modifiers letters → applyModifiers files cwd value modifiers =
          (if 'p' ∈ letters.toList then dir ++ "/" else "") ++
          (if 'n' ∈ letters.toList then (Path.splitName name).1 else "") ++
          (if 'x' ∈ letters.toList then (Path.splitName name).2 else "") := fun letters hletters hdpnx h =>
      applyModifiers_cut hvalue hcut hcolon h hletters hdpnx
    refine ⟨applyModifiers_full hvalue, fun h => ?_, fun h => ?_, fun h => ?_, fun h => ?_, fun h => ?_⟩
    · rw [htakes "dpnx" (by decide) (by decide) h, if_pos (by decide), if_pos (by decide), if_pos (by decide),
        String.append_assoc, ← hwhole, hcut.whole]
    · rw [htakes "nx" (by decide) (by decide) h, if_neg (by decide), if_pos (by decide), if_pos (by decide),
        String.empty_append, ← hwhole]
    · rw [htakes "dp" (by decide) (by decide) h, if_pos (by decide), if_neg (by decide), if_neg (by decide),
        String.append_empty, String.append_empty]
    · rw [htakes "n" (by decide) (by decide) h, if_neg (by decide), if_pos (by decide), if_neg (by decide),
        String.empty_append, String.append_empty]
    · rw [htakes "x" (by decide) (by decide) h, if_neg (by decide), if_neg (by decide), if_pos (by decide),
        String.empty_append, String.empty_append]

/-- A name with two dots and one in front of it, reached over the parent directory. -/
theorem pathParts_partition_dots :
    Path.resolve "/work/sub" "..\\a dir\\.b.tar.gz" = "/work/a dir/.b.tar.gz" ∧
      applyModifiers .empty "/work/sub" "\"..\\a dir\\.b.tar.gz\"" ['x', 'P', 'n', 'D', 'p'] = "/work/a dir/.b.tar.gz" ∧
      applyModifiers .empty "/work/sub" "\"..\\a dir\\.b.tar.gz\"" ['X', 'n', 'n'] = ".b.tar.gz" := by
  have hplain : dequote "\"..\\a dir\\.b.tar.gz\"" = "..\\a dir\\.b.tar.gz" := by decide +kernel
  have hfull : Path.resolve "/work/sub" "..\\a dir\\.b.tar.gz" = "/work/a dir/.b.tar.gz" := by decide +kernel
  have hparts : Path.components "/work/a dir/.b.tar.gz" = ["work", "a dir", ".b.tar.gz"] := by decide +kernel
  obtain ⟨dir, name, stem, ext, hlast, -, -, -, -, htakes⟩ := pathParts_partition .empty "/work/sub"
    "\"..\\a dir\\.b.tar.gz\"" (by decide) (by rw [hplain]; decide) (by rw [hplain, hfull, hparts]; decide)
    (by rw [hplain, hfull, hparts]; decide) (by rw [hplain, hfull]; decide)
  rw [hplain, hfull] at hlast htakes
  rw [hparts] at hlast
  cases hlast
  obtain ⟨-, hall, -⟩ := htakes ['x', 'P', 'n', 'D', 'p']
  obtain ⟨-, -, hname, -⟩ := htakes ['X', 'n', 'n']
  exact ⟨hfull, hall (by decide), hname (by decide)⟩

end Expansion

end BatchShell
