import BatchShell.Proofs.Expansion.Blanks

/-!
# What expansion touches

Expansion goes over a text once. It takes a reference for what it is, puts the value in its place and goes on behind
it, and all other text stays.

* `atPercent_name`: a percent sign before a name and another percent sign, in a script and in a typed line.
* `expandFrom_pieces`: a script line made of texts with their percent signs doubled and of references to names, as
  many as one likes, is expanded piece by piece.
* `expandFrom_unresolved`: a typed line in which nothing between two percent signs is a reference stays as it is.
* `expansion_touches_references`: both, with the value that the variables give to a name.
-/
namespace BatchShell.Expansion

variable (files : FileTree) (now : Nat → Ambient) {s : State}

/-- Double the percent signs. -/
def doubleSigns (cs : List Char) : List Char := cs.flatMap fun c => if c == '%' then ['%', '%'] else [c]

/-- The text with every percent sign doubled, as a script has to write it. -/
def doubled (text : String) : String := String.ofList (doubleSigns text.toList)

/-- What a percent sign does before a name and a second percent sign. -/
theorem atPercent_name (now : Ambient) {name : String} (hname : isIdentifier name = true) (rest : List Char) :
    atPercent files now s (name.toList ++ '%' :: rest) =
      match variableValue? now s name with
      | some value => (.ok value.toList, rest)
      | none => if s.inBatch then (.ok [], rest) else (.ok ['%'], name.toList ++ '%' :: rest) := by
  obtain ⟨c, cs, hchars, hdigit, hsigns⟩ := isIdentifier_cons hname
  have hcolon : ':' ∉ name.toList := fun hmem => hsigns ':' hmem (by decide)
  have hparam : (if s.inBatch then parameter? files s (name.toList ++ '%' :: rest) else none) = none := by
    rw [hchars, List.cons_append, parameter?_eq_none files s hdigit (hsigns c (by simp [hchars])), ite_self]
  have hclosed := enclosed?_name (by simp [hchars]) hsigns rest
  have hreference := expandReference?_of_not_mem now s hcolon
  cases hvalue : variableValue? now s name <;>
    simp only [atPercent, hparam, hclosed, String.ofList_toList, hreference, hvalue]

/-! ## Scripts -/

/-- In a script two percent signs stand for one, and the text between them is not looked at. -/
theorem expandFrom_doubleSigns (hbatch : s.inBatch = true) (cs rest : List Char) :
    expandFrom files now s (doubleSigns cs ++ rest) = (expandFrom files now s rest).map (cs ++ ·) := by
  induction cs with
  | nil => cases h : expandFrom files now s rest <;> simp [doubleSigns, h, Except.map]
  | cons c cs ih =>
    by_cases hc : c = '%'
    · subst hc
      have hstep (now : Ambient) : atPercent files now s ('%' :: (doubleSigns cs ++ rest)) =
          (.ok ['%'], doubleSigns cs ++ rest) := by
        simp [atPercent, hbatch, parameter?]
      show expandFrom files now s ('%' :: '%' :: (doubleSigns cs ++ rest)) = _
      rw [expandFrom_percent, hstep, ih, joined_ok, Except.map_map]
      rfl
    · have hone : doubleSigns (c :: cs) = [c] ++ doubleSigns cs := by simp [doubleSigns, hc]
      rw [hone, List.append_assoc, expandFrom_append files now s (by simpa using Ne.symm hc), ih, Except.map_map]
      rfl

/-- A piece of a script line: a text that means itself, or a reference to a name. -/
inductive Piece where
  | text (cs : List Char)
  | reference (name : String)

namespace Piece

/-- How the piece is written. -/
def written : Piece → List Char
  | text cs => doubleSigns cs
  | reference name => '%' :: (name.toList ++ ['%'])

/-- What pieces stand for, each reference at its moment. A name without a value stands for nothing. -/
def values (now : Nat → Ambient) (s : State) : List Piece → List Char
  | [] => []
  | text cs :: pieces => cs ++ values now s pieces
  | reference name :: pieces =>
    let moment := now (name.toList ++ '%' :: pieces.flatMap written).length
    ((variableValue? moment s name).getD "").toList ++ values now s pieces

/-- A reference is to a name that can be one. -/
def Sound : Piece → Prop
  | text _ => True
  | reference name => isIdentifier name = true

end Piece

/-- In a script every piece is expanded by itself, and no value is read again. -/
theorem expandFrom_pieces (hbatch : s.inBatch = true) {pieces : List Piece} (h : ∀ piece ∈ pieces, piece.Sound) :
    expandFrom files now s (pieces.flatMap Piece.written) = .ok (Piece.values now s pieces) := by
  induction pieces with
  | nil => rw [List.flatMap_nil, expandFrom, Piece.values]
  | cons piece pieces ih =>
    obtain ⟨hpiece, hpieces⟩ := List.forall_mem_cons.mp h
    have htail := ih hpieces
    rw [List.flatMap_cons]
    cases piece with
    | text cs =>
      rw [Piece.written, expandFrom_doubleSigns files now hbatch cs, htail, Except.map_ok, Piece.values]
    | reference name =>
      have hline : Piece.written (.reference name) ++ pieces.flatMap Piece.written =
          '%' :: (name.toList ++ '%' :: pieces.flatMap Piece.written) := by simp [Piece.written]
      rw [hline, expandFrom_percent, atPercent_name files _ hpiece, Piece.values]
      cases variableValue? (now (name.toList ++ '%' :: pieces.flatMap Piece.written).length) s name with
      | some value => simp [htail]
      | none => simp [hbatch, htail]

/-! ## Typed lines -/

/-- Nothing between two percent signs of a line with no third one between them is a reference. -/
def Unresolved (now : Nat → Ambient) (s : State) (cs : List Char) : Prop :=
  ∀ before body after, cs = before ++ '%' :: (body ++ '%' :: after) → body ≠ [] →
    (∀ c ∈ body, c ≠ '%' ∧ c ≠ '\n') →
      expandReference? (now (body ++ '%' :: after).length) s (String.ofList body) = .ok none

theorem Unresolved.tail {c : Char} {cs : List Char} (h : Unresolved now s (c :: cs)) : Unresolved now s cs := by
  rintro before body after rfl
  exact h (c :: before) body after rfl

/-- A typed line keeps a percent sign that starts no reference. -/
theorem atPercent_unresolved (hbatch : s.inBatch = false) {cs : List Char} (h : Unresolved now s ('%' :: cs)) :
    atPercent files (now cs.length) s cs = (.ok ['%'], cs) := by
  cases hclosed : enclosed? cs with
  | none => simp [atPercent, hbatch, hclosed]
  | some found =>
    obtain ⟨heq, hbody, hinside⟩ := enclosed?_eq_some_iff.mp hclosed
    have hnone : expandReference? (now cs.length) s (String.ofList found.1) = .ok none := by
      rw [heq]
      apply h [] found.1 found.2 (by rw [heq]; rfl) hbody
      intro c hc
      simpa [endsReference] using hinside c hc
    simp [atPercent, hbatch, hclosed, hnone]

/-- A typed line without references stays as it is. -/
theorem expandFrom_unresolved (hbatch : s.inBatch = false) {cs : List Char} (h : Unresolved now s cs) :
    expandFrom files now s cs = .ok cs := by
  induction cs with
  | nil => rw [expandFrom]
  | cons c cs ih =>
    have htail := ih (h.tail now)
    by_cases hc : c = '%'
    · subst hc
      rw [expandFrom_percent, atPercent_unresolved files now hbatch h, htail]
      rfl
    · rw [expandFrom, if_pos (by simpa using hc), htail, Except.map_ok]

/-- In a typed line a single reference to a name is replaced, or it stays if the name has no value. -/
theorem expandFrom_name (hbatch : s.inBatch = false) {before after : List Char} {name : String}
    (hbefore : '%' ∉ before) (hafter : '%' ∉ after) (hname : isIdentifier name = true) :
    expandFrom files now s (before ++ '%' :: (name.toList ++ '%' :: after)) =
      match variableValue? (now (name.toList ++ '%' :: after).length) s name with
      | some value => .ok (before ++ (value.toList ++ after))
      | none => .ok (before ++ '%' :: (name.toList ++ '%' :: after)) := by
  have hplain : expandFrom files now s after = .ok after := expandFrom_of_not_mem files now s hafter
  rw [expandFrom_append files now s hbefore, expandFrom_percent, atPercent_name files _ hname]
  cases variableValue? (now (name.toList ++ '%' :: after).length) s name with
  | some value => simp [hplain]
  | none =>
    have hsigns : '%' ∉ name.toList := by
      obtain ⟨-, -, -, -, hsigns⟩ := isIdentifier_cons hname
      exact fun hmem => hsigns '%' hmem (by decide)
    have hlone (now : Ambient) : atPercent files now s after = (.ok ['%'], after) := by
      rw [atPercent_lone (by simp [hbatch]) hafter, loneSign, hbatch]
      rfl
    simp [hbatch, expandFrom_append files now s hsigns, expandFrom_percent, hlone, hplain]

/-! ## Names with and without a value -/

theorem variableValue?_of_defines (now : Ambient) {name value : String} (h : s.env.Defines name value) :
    variableValue? now s name = some value := by
  simp only [variableValue?, Environment.get?_eq_some_iff.mpr h]

theorem variableValue?_of_undefined (now : Ambient) {name : String} (h : ∀ value, ¬ s.env.Defines name value)
    (hdynamic : dynamicValue? now s name = none) : variableValue? now s name = none := by
  have hnone : s.env.get? name = none := by
    apply Option.eq_none_iff_forall_ne_some.mpr
    intro value hvalue
    exact h value (Environment.get?_eq_some_iff.mp hvalue)
  simp only [variableValue?, hnone, hdynamic]

/-- **Expansion touches references only.** In a script, text whose percent signs are doubled comes out as it was, and
between two such texts a reference to a name gives the value of the name, whatever is in it and in whichever scope it
was set, or nothing if the name has no value. In a typed line, text stays as long as nothing between two of its percent
signs is a reference; a reference to a name that is defined gives the value, and one to a name without value stays. -/
theorem expansion_touches_references (files : FileTree) (now : Nat → Ambient) (s : State) :
    (s.inBatch = true → ∀ a b name : String, isIdentifier name = true →
      expandPercent files now s (doubled a) = .ok a ∧
      (∀ value, s.env.Defines name value →
        expandPercent files now s (doubled a ++ ("%" ++ name ++ "%") ++ doubled b) = .ok (a ++ value ++ b)) ∧
      ((∀ value, ¬ s.env.Defines name value) → (∀ n, dynamicValue? (now n) s name = none) →
        expandPercent files now s (doubled a ++ ("%" ++ name ++ "%") ++ doubled b) = .ok (a ++ b))) ∧
    (s.inBatch = false →
      (∀ text, Unresolved now s text.toList → expandPercent files now s text = .ok text) ∧
      ∀ a b name : String, '%' ∉ a.toList → '%' ∉ b.toList → isIdentifier name = true →
        (∀ value, s.env.Defines name value →
          expandPercent files now s (a ++ ("%" ++ name ++ "%") ++ b) = .ok (a ++ value ++ b)) ∧
        ((∀ value, ¬ s.env.Defines name value) → (∀ n, dynamicValue? (now n) s name = none) →
          expandPercent files now s (a ++ ("%" ++ name ++ "%") ++ b) = .ok (a ++ ("%" ++ name ++ "%") ++ b))) := by
  refine ⟨fun hbatch a b name hname => ⟨?_, ?_⟩, fun hbatch => ⟨fun text htext => ?_, ?_⟩⟩
  · have hall := expandFrom_doubleSigns files now hbatch a.toList []
    rw [List.append_nil, expandFrom, Except.map_ok, List.append_nil] at hall
    rw [expandPercent, doubled, String.toList_ofList, hall, Except.map_ok, String.ofList_toList]
  · have hline : (doubled a ++ ("%" ++ name ++ "%") ++ doubled b).toList =
        [Piece.text a.toList, .reference name, .text b.toList].flatMap Piece.written := by
      simp [doubled, Piece.written]
    have hsound : ∀ piece ∈ [Piece.text a.toList, .reference name, .text b.toList], piece.Sound := by
      simpa [Piece.Sound] using hname
    have hpieces := expandFrom_pieces files now hbatch hsound
    rw [expandPercent, hline, hpieces, Except.map_ok]
    constructor
    · intro value hvalue
      simp [Piece.values, variableValue?_of_defines _ hvalue, String.ext_iff]
    · intro hundefined hdynamic
      simp [Piece.values, variableValue?_of_undefined _ hundefined (hdynamic _)]
  · rw [expandPercent, expandFrom_unresolved files now hbatch htext, Except.map_ok, String.ofList_toList]
  · intro a b name ha hb hname
    have hline : (a ++ ("%" ++ name ++ "%") ++ b).toList = a.toList ++ '%' :: (name.toList ++ '%' :: b.toList) := by
      simp
    rw [expandPercent, hline, expandFrom_name files now hbatch ha hb hname]
    constructor
    · intro value hvalue
      simp [variableValue?_of_defines _ hvalue, String.ext_iff]
    · intro hundefined hdynamic
      simp [variableValue?_of_undefined _ hundefined (hdynamic _), String.ext_iff]

/-- `RATE` is set to a text with percent signs in it, outside the scope that is open. -/
def rateOutside : State := State.initial (Environment.pushScope (Environment.empty.set "RATE" "5%%x%")) "/"

/-- A script that runs in that state. -/
def rateInScript : State := { rateOutside with calls := [⟨.load "t.bat" "", 0, .ofCall "t.bat" [], true, 0⟩] }

/-- A name that a scope further out defines, between doubled percent signs in a script, and one that no scope defines,
in a typed line. -/
theorem expansion_touches_references_outside :
    (isIdentifier "RATE" = true ∧ rateInScript.inBatch = true ∧ rateInScript.env.Defines "RATE" "5%%x%" ∧
      expandPercent .empty (fun _ => .epoch) rateInScript "50%% of %RATE% and %%" = .ok "50% of 5%%x% and %") ∧
    (isIdentifier "RAT" = true ∧ rateOutside.inBatch = false ∧ (∀ value, ¬ rateOutside.env.Defines "RAT" value) ∧
      expandPercent .empty (fun _ => .epoch) rateOutside "[%RAT%]" = .ok "[%RAT%]") := by
  have hdefines : rateInScript.env.Defines "RATE" "5%%x%" := by
    apply Environment.get?_eq_some_iff.mp
    decide +kernel
  have hundefined : ∀ value, ¬ rateOutside.env.Defines "RAT" value := by
    have hget : rateOutside.env.get? "RAT" = none := by decide +kernel
    intro value hvalue
    cases hget.symm.trans (Environment.get?_eq_some_iff.mpr hvalue)
  have hscript := (expansion_touches_references .empty (fun _ => .epoch) rateInScript).1 rfl "50% of " " and %" "RATE"
    (by decide)
  have htyped := ((expansion_touches_references .empty (fun _ => .epoch) rateOutside).2 rfl).2 "[" "]" "RAT"
    (by decide) (by decide) (by decide)
  have hline : doubled "50% of " ++ ("%" ++ "RATE" ++ "%") ++ doubled " and %" = "50%% of %RATE% and %%" := by
    decide +kernel
  have hvalue : "50% of " ++ "5%%x%" ++ " and %" = "50% of 5%%x% and %" := by decide +kernel
  have hkept : "[" ++ ("%" ++ "RAT" ++ "%") ++ "]" = "[%RAT%]" := by decide +kernel
  rw [hline] at hscript
  rw [hkept] at htyped
  refine ⟨⟨by decide, rfl, hdefines, ?_⟩, by decide, rfl, hundefined,
    htyped.2 hundefined fun _ => by decide +kernel⟩
  rw [← hvalue]
  exact hscript.2.1 _ hdefines

end BatchShell.Expansion
