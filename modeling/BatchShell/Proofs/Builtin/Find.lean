import BatchShell.Builtin.Filter

/-!
# FIND and FIND /V

A line is found if it holds a text, and `/V` asks for the lines that are not found. The two divide the lines of the
input between them: both keep the order and the numbers of the lines, and each line falls to one of them. All other
switches only change how the lines are written.

* `contains_iff`: what it means that a text occurs in a line.
* `numberedLines_eq_filter`: the lines that are found, among all lines with their numbers.
* `runFind_input`: what the command writes about its input.
* `runFind_divides`: the two divisions of an input, under all switches.
-/
namespace BatchShell

/-! ## Occurrences -/

theorem Text.occursIn_iff {needle cs : List Char} : occursIn needle cs = true ↔ needle <:+: cs := by
  induction cs with
  | nil => rw [occursIn, List.isEmpty_iff, List.infix_nil]
  | cons c cs ih => rw [occursIn, Bool.or_eq_true, List.isPrefixOf_iff_prefix, ih, List.infix_cons_iff]

theorem Text.contains_iff {hay needle : String} : contains hay needle = true ↔ needle.toList <:+: hay.toList :=
  occursIn_iff

namespace Builtin

variable {accept : String → Bool} {text : String}

/-! ## Numbered lines -/

/-- The lines of a text with their numbers. -/
theorem numberedLines_all (text : String) :
    numberedLines (fun _ => true) text = ((Text.lines text).zipIdx 1).map fun (line, n) => (n, line) := by
  simp [numberedLines]

theorem numberedLines_eq_filter :
    numberedLines accept text = (numberedLines (fun _ => true) text).filter fun (_, line) => accept line := by
  rw [numberedLines_all, numberedLines, List.filter_map, ← List.filterMap_eq_map, List.filterMap_filter]
  rfl

theorem map_numberedLines (text : String) : (numberedLines (fun _ => true) text).map (·.2) = Text.lines text := by
  rw [numberedLines_all, List.map_map]
  exact List.zipIdx_map_fst 1 _

theorem numbers_numberedLines (text : String) :
    (numberedLines (fun _ => true) text).map (·.1) = List.range' 1 (Text.lines text).length := by
  rw [numberedLines_all, List.map_map]
  exact List.zipIdx_map_snd 1 _

/-! ## The command -/

/-- Does a line hold the text that is looked for, with or without regard to case? -/
def occurs (ignoreCase : Bool) (needle line : String) : Bool :=
  (FindOptions.mk false false false ignoreCase).accepts needle line

/-- A text stands in a line, with or without regard to case. -/
def Occurs (ignoreCase : Bool) (needle line : String) : Prop :=
  if ignoreCase then (Text.lowerCase needle).toList <:+: (Text.lowerCase line).toList
  else needle.toList <:+: line.toList

theorem occurs_iff {ignoreCase : Bool} {needle line : String} :
    occurs ignoreCase needle line = true ↔ Occurs ignoreCase needle line := by
  cases ignoreCase <;> simp [occurs, Occurs, FindOptions.accepts, Text.contains_iff]

/-- Inverting the search asks for the other lines. -/
theorem accepts_eq (o : FindOptions) (needle line : String) :
    o.accepts needle line = (occurs o.ignoreCase needle line != o.invert) := by
  simp [occurs, FindOptions.accepts]

/-- A line as it is written, perhaps behind its number. -/
def writtenLine (withNumber : Bool) (line : Nat × String) : String :=
  (if withNumber then "[" ++ toString line.1 ++ "]" else "") ++ line.2

/-- What is written about lines: all of them, or how many they are. -/
def written (args : List String) (found : List (Nat × String)) : String :=
  if hasSwitch args "/C" then toString found.length ++ "\n"
  else joinLines (found.map (writtenLine (hasSwitch args "/N")))

/-- Without files, the command writes about the lines of its input, and the status tells whether there are any. -/
theorem runFind_input (files : FileTree) (s : State) {args : List String} {needle : String} (stdin : String)
    (hargs : operands args = [needle]) (hneedle : needle.toList.head? = some '"') :
    ∃ found, runFind files s args stdin = ⟨written args found, "", if 0 < found.length then 0 else 1⟩ ∧
      found = (numberedLines (fun _ => true) stdin).filter fun (_, line) =>
        occurs (hasSwitch args "/I") (dequote needle) line != hasSwitch args "/V" := by
  let o : FindOptions := ⟨hasSwitch args "/V", hasSwitch args "/C", hasSwitch args "/N", hasSwitch args "/I"⟩
  have hreport : ∀ found, o.report none found = written args found := by
    intro found
    unfold written FindOptions.report
    split
    · rfl
    · rw [joinLines, List.map_map]
      exact String.empty_append
  refine ⟨numberedLines (o.accepts (dequote needle)) stdin, ?_, ?_⟩
  · have hquoted : (needle.toList.head? != some '"') = false := by simp [hneedle]
    simp only [runFind, hargs, hquoted, sources, List.isEmpty_nil, if_true, Bool.false_eq_true, if_false,
      List.map_cons, List.map_nil]
    change (⟨String.join [o.report none (numberedLines (o.accepts (dequote needle)) stdin)], "",
      if [((none : Option String), numberedLines (o.accepts (dequote needle)) stdin)].any
        (fun x => !x.2.isEmpty) then 0 else 1⟩ : Result) = _
    generalize numberedLines (o.accepts (dequote needle)) stdin = found
    rw [hreport, String.join_cons, String.join_nil, String.append_empty]
    cases found <;> rfl
  · rw [numberedLines_eq_filter]
    congr 1
    funext line
    exact accepts_eq o _ _

/-- **`FIND` and `FIND /V` divide the lines of the input.** All lines are those that `MORE` prints, with their numbers
from 1 on. For a quoted text, with or without regard to case, the lines that are found and the others are two parts of
them, in order and with different numbers, and put together they are all lines. With `/V` the others are written, else
the found ones: line by line, with `/N` behind their numbers, with `/C` only how many there are. The status is 0 exactly
if there is one. -/
theorem runFind_divides (files : FileTree) (s : State) (stdin needle : String) (ignoreCase : Bool)
    (hneedle : needle.toList.head? = some '"') :
    let all := numberedLines (fun _ => true) stdin
    (∀ args, operands args = [] → runMore files s args stdin = .output (joinLines (all.map (·.2)))) ∧
    all.map (·.1) = List.range' 1 all.length ∧
    ∃ found others : List (Nat × String), found.Sublist all ∧ others.Sublist all ∧ (found ++ others).Perm all ∧
      (∀ line ∈ found, ∀ other ∈ others, line.1 ≠ other.1) ∧ found.length + others.length = all.length ∧
      (∀ line ∈ found, Occurs ignoreCase (dequote needle) line.2) ∧
      (∀ line ∈ others, ¬ Occurs ignoreCase (dequote needle) line.2) ∧
      ∀ args, operands args = [needle] → hasSwitch args "/I" = ignoreCase →
        let chosen := if hasSwitch args "/V" then others else found
        runFind files s args stdin = ⟨written args chosen, "", if 0 < chosen.length then 0 else 1⟩ := by
  intro all
  let holds (line : Nat × String) : Bool := occurs ignoreCase (dequote needle) line.2
  have hperm : (all.filter holds ++ all.filter fun line => !holds line).Perm all := List.filter_append_perm holds all
  have hnumbers : all.map (·.1) = List.range' 1 all.length := by
    rw [numbers_numberedLines, ← map_numberedLines, List.length_map]
  have hnodup : ((all.filter holds ++ all.filter fun line => !holds line).map (·.1)).Nodup := by
    rw [(hperm.map _).nodup_iff, hnumbers]
    exact List.nodup_range'
  refine ⟨fun args hargs => ?_, hnumbers, all.filter holds, all.filter fun line => !holds line, List.filter_sublist,
    List.filter_sublist, hperm, ?_, ?_, fun line hline => ?_, fun line hline => ?_, fun args hargs hcase => ?_⟩
  · rw [runMore, hargs, map_numberedLines]
  · rw [List.map_append, List.nodup_append] at hnodup
    exact fun line hline other hother => hnodup.2.2 _ (List.mem_map_of_mem hline) _ (List.mem_map_of_mem hother)
  · rw [← List.length_append, hperm.length_eq]
  · exact occurs_iff.mp (List.mem_filter.mp hline).2
  · rw [← occurs_iff, Bool.not_eq_true]
    simpa [holds] using (List.mem_filter.mp hline).2
  · obtain ⟨chosen, hrun, hchosen⟩ := runFind_input files s stdin hargs hneedle
    have hpart : chosen = if hasSwitch args "/V" then all.filter fun line => !holds line else all.filter holds := by
      rw [hchosen, hcase]
      cases hasSwitch args "/V" <;> simp [holds, all]
    rw [hrun, ← hpart]

/-- Three lines with different ends, one of which holds the text. -/
theorem runFind_divides_three :
    let lines := "Error: one\r\nok\nerror: two"
    let s := State.initial .empty "/"
    ∃ found others : List (Nat × String),
      (found ++ others).Perm [(1, "Error: one"), (2, "ok"), (3, "error: two")] ∧
      runFind .empty s ["/N", "\"error\""] lines = ⟨written ["/N", "\"error\""] found, "", 0⟩ ∧
      written ["/N", "\"error\""] found = "[3]error: two\n" ∧
      runFind .empty s ["/V", "\"error\"", "/C"] lines = ⟨written ["/V", "\"error\"", "/C"] others, "", 0⟩ ∧
      written ["/V", "\"error\"", "/C"] others = "2\n" := by
  obtain ⟨-, -, found, others, -, -, hperm, -, -, -, -, hrun⟩ := runFind_divides .empty (State.initial .empty "/")
    "Error: one\r\nok\nerror: two" "\"error\"" false (by decide)
  have hall : numberedLines (fun _ => true) "Error: one\r\nok\nerror: two" =
      [(1, "Error: one"), (2, "ok"), (3, "error: two")] := by decide +kernel
  have hfound := hrun ["/N", "\"error\""] (by decide +kernel) (by decide +kernel)
  have hothers := hrun ["/V", "\"error\"", "/C"] (by decide +kernel) (by decide +kernel)
  have hlines : runFind .empty (State.initial .empty "/") ["/N", "\"error\""] "Error: one\r\nok\nerror: two" =
      ⟨"[3]error: two\n", "", 0⟩ := by decide +kernel
  have hcount : runFind .empty (State.initial .empty "/") ["/V", "\"error\"", "/C"] "Error: one\r\nok\nerror: two" =
      ⟨"2\n", "", 0⟩ := by decide +kernel
  have hn : hasSwitch ["/N", "\"error\""] "/V" = false := by decide +kernel
  have hv : hasSwitch ["/V", "\"error\"", "/C"] "/V" = true := by decide +kernel
  simp only [hn, Bool.false_eq_true, if_false, hlines, Result.mk.injEq, true_and] at hfound
  simp only [hv, if_true, hcount, Result.mk.injEq, true_and] at hothers
  refine ⟨found, others, hall ▸ hperm, ?_, hfound.1.symm, ?_, hothers.1.symm⟩
  · rw [hlines, hfound.1]
  · rw [hcount, hothers.1]

end Builtin

end BatchShell
