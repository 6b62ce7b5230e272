import BatchShell.Proofs.Engine.Ends
import BatchShell.Proofs.Files.Writes

/-!
# Redirections as a table of descriptors

The redirections of a command are a table of descriptors that is filled from left to right. `Opens` says what one
redirection asks for when its turn comes: it reads a file, opens one for output, or copies a slot. `Descriptors`
is the table: output and errors have a slot, and other handles have none.

* `Plan.addAll_eq_ok_iff`: the redirections can be taken in exactly if every file can be opened, and the plan is then
  what the openings make of it one by one.
* `contents?_opened`: a file that was opened has its old contents if output was only ever added to it, and none
  otherwise, in whatever order and by whatever paths it was opened.
* `Plan.delivered_deliverOutcome`: delivering an outcome adds its output and then its errors to what the slots name,
  each text once and whole; `Plan.redirections_lose_nothing` puts the three together.
-/
namespace BatchShell

/-! ## What a redirection asks for -/

/-- What a redirection asks for when its name has been read and its file opened. -/
inductive Opening where
  | input (text : String)
  | output (handle : Nat) (path : String) (append : Bool)
  | discard (handle : Nat)
  | copy (handle source : Nat)
  | nothing

/-- The name of a file as it is at the moment, with the letters of the active loops filled in. -/
def State.named (s : State) (files : FileTree) (name : String) : String :=
  Expansion.fillLoopVars files s.cwd s.loops name

/-- A redirection is taken in: what it asks for, and the files before and after. -/
inductive Opens (s : State) : FileTree → Redirection → Opening → FileTree → Prop where
  | noInput {files handle name} (device : isNullDevice (s.named files name) = true) :
    Opens s files ⟨handle, .input, .file name⟩ (.input "") files
  | input {files handle name text} (plain : isNullDevice (s.named files name) = false)
    (read : files.readText? (Path.resolve s.cwd (s.named files name)) = some text) :
    Opens s files ⟨handle, .input, .file name⟩ (.input text) files
  | inputHandle {files handle source} : Opens s files ⟨handle, .input, .handle source⟩ .nothing files
  | discard {files handle op name} (out : op ≠ .input) (device : isNullDevice (s.named files name) = true) :
    Opens s files ⟨handle, op, .file name⟩ (.discard handle) files
  | output {files handle op name opened} (out : op ≠ .input) (plain : isNullDevice (s.named files name) = false)
    (opens : files.openOutput? (Path.resolve s.cwd (s.named files name)) (op == .append) = some opened) :
    Opens s files ⟨handle, op, .file name⟩
      (.output handle (Path.resolve s.cwd (s.named files name)) (op == .append)) opened
  | copy {files handle op source} (out : op ≠ .input) :
    Opens s files ⟨handle, op, .handle source⟩ (.copy handle source) files

/-- Redirections are taken in from left to right. -/
inductive OpensAll (s : State) : FileTree → List Redirection → List Opening → FileTree → Prop where
  | nil {files} : OpensAll s files [] [] files
  | cons {files r o opened rs os last} (head : Opens s files r o opened) (tail : OpensAll s opened rs os last) :
    OpensAll s files (r :: rs) (o :: os) last

/-- Where each handle ends. -/
abbrev Descriptors := Nat → Option Sink

namespace Descriptors

/-- Output and errors end where they always do. -/
def initial : Descriptors
  | 1 => some .stdout
  | 2 => some .stderr
  | _ => none

/-- Let a handle end elsewhere, if it has a slot. -/
def set (table : Descriptors) (handle : Nat) (sink : Sink) : Descriptors := fun n =>
  if n = handle ∧ (table n).isSome then some sink else table n

/-- What an opening does to the table. -/
def take (table : Descriptors) : Opening → Descriptors
  | .output handle path _ => table.set handle (.file path)
  | .discard handle => table.set handle .discard
  | .copy handle source =>
    match table source with
    | some sink => table.set handle sink
    | none => table
  | .input _ | .nothing => table

end Descriptors

/-- The text that an opening gives as input. -/
def Opening.input? : Opening → Option String
  | .input text => some text
  | _ => none

namespace Plan

/-- What an opening does to a plan. -/
def take (p : Plan) : Opening → Plan
  | .input text => { p with stdin := some text }
  | .output handle path _ => p.setSink handle (.file path)
  | .discard handle => p.setSink handle .discard
  | .copy handle source =>
    match p.sink? source with
    | some sink => p.setSink handle sink
    | none => p
  | .nothing => p

variable {p p' plan : Plan} {s : State} {files opened later : FileTree}

theorem add_input (p : Plan) (s : State) (files : FileTree) (handle : Nat) (name : String) :
    p.add s files ⟨handle, .input, .file name⟩ = (p.readFrom s files (s.named files name), files) := rfl

theorem add_output {op : RedirectOp} (out : op ≠ .input) (p : Plan) (s : State) (files : FileTree) (handle : Nat)
    (name : String) :
    p.add s files ⟨handle, op, .file name⟩ = p.writeTo s files handle (op == .append) (s.named files name) := by
  cases op with
  | input => exact absurd rfl out
  | output => rfl
  | append => rfl

theorem add_copy {op : RedirectOp} (out : op ≠ .input) (p : Plan) (s : State) (files : FileTree)
    (handle source : Nat) :
    p.add s files ⟨handle, op, .handle source⟩ = (.ok (p.take (.copy handle source)), files) := by
  cases op with
  | input => exact absurd rfl out
  | output => cases hsink : p.sink? source <;> simp [add, take, hsink]
  | append => cases hsink : p.sink? source <;> simp [add, take, hsink]

theorem readFrom_eq_ok_iff {name : String} :
    p.readFrom s files name = .ok p' ↔ ∃ text, p' = p.take (.input text) ∧
      (isNullDevice name = true ∧ text = "" ∨
        isNullDevice name = false ∧ files.readText? (Path.resolve s.cwd name) = some text) := by
  cases hdevice : isNullDevice name with
  | true => simp [readFrom, hdevice, take, eq_comm]
  | false => cases hread : files.readText? (Path.resolve s.cwd name) <;> simp [readFrom, hdevice, hread, take, eq_comm]

theorem writeTo_eq_ok_iff {handle : Nat} {append : Bool} {name : String} :
    p.writeTo s files handle append name = (.ok p', opened) ↔
      isNullDevice name = true ∧ p' = p.take (.discard handle) ∧ opened = files ∨
      isNullDevice name = false ∧ p' = p.take (.output handle (Path.resolve s.cwd name) append) ∧
        files.openOutput? (Path.resolve s.cwd name) append = some opened := by
  cases hdevice : isNullDevice name with
  | true => simp [writeTo, hdevice, take, eq_comm]
  | false =>
    cases hopen : files.openOutput? (Path.resolve s.cwd name) append <;>
      simp [writeTo, hdevice, hopen, take, eq_comm]

/-- A redirection can be taken in exactly if its file can be opened, and then it does what it asks for. -/
theorem add_eq_ok_iff {r : Redirection} :
    p.add s files r = (.ok p', opened) ↔ ∃ o, Opens s files r o opened ∧ p' = p.take o := by
  obtain ⟨handle, op, target⟩ := r
  constructor
  · intro h
    by_cases hop : op = .input
    · subst hop
      cases target with
      | file name =>
        rw [add_input, Prod.mk.injEq, readFrom_eq_ok_iff] at h
        obtain ⟨⟨text, rfl, ⟨device, rfl⟩ | ⟨plain, read⟩⟩, rfl⟩ := h
        · exact ⟨_, .noInput device, rfl⟩
        · exact ⟨_, .input plain read, rfl⟩
      | handle source =>
        cases h
        exact ⟨_, .inputHandle, rfl⟩
    · cases target with
      | file name =>
        rw [add_output hop, writeTo_eq_ok_iff] at h
        obtain ⟨device, rfl, rfl⟩ | ⟨plain, rfl, opens⟩ := h
        · exact ⟨_, .discard hop device, rfl⟩
        · exact ⟨_, .output hop plain opens, rfl⟩
      | handle source =>
        rw [add_copy hop] at h
        cases h
        exact ⟨_, .copy hop, rfl⟩
  · rintro ⟨o, hopens, rfl⟩
    cases hopens with
    | noInput device => rw [add_input, readFrom_eq_ok_iff.mpr ⟨_, rfl, .inl ⟨device, rfl⟩⟩]
    | input plain read => rw [add_input, readFrom_eq_ok_iff.mpr ⟨_, rfl, .inr ⟨plain, read⟩⟩]
    | inputHandle => rfl
    | discard out device => rw [add_output out, writeTo_eq_ok_iff.mpr (.inl ⟨device, rfl, rfl⟩)]
    | output out plain opens => rw [add_output out, writeTo_eq_ok_iff.mpr (.inr ⟨plain, rfl, opens⟩)]
    | copy out => rw [add_copy out]

/-- Redirections can be taken in exactly if every file can be opened. The plan is then what the openings make of
it, from left to right. -/
theorem addAll_eq_ok_iff {rs : List Redirection} :
    p.addAll s files rs = (.ok p', opened) ↔ ∃ os, OpensAll s files rs os opened ∧ p' = os.foldl take p := by
  induction rs generalizing p files with
  | nil =>
    constructor
    · intro h
      cases h
      exact ⟨[], .nil, rfl⟩
    · rintro ⟨os, hopens, rfl⟩
      cases hopens
      rfl
  | cons r rs ih =>
    constructor
    · intro h
      rw [addAll] at h
      split at h
      · rename_i first files' hadd
        obtain ⟨o, hopens, rfl⟩ := add_eq_ok_iff.mp hadd
        obtain ⟨os, hall, rfl⟩ := ih.mp h
        exact ⟨o :: os, .cons hopens hall, rfl⟩
      · cases h
    · rintro ⟨os, hopens, rfl⟩
      cases hopens with
      | cons head tail =>
        rw [addAll, add_eq_ok_iff.mpr ⟨_, head, rfl⟩]
        exact ih.mpr ⟨_, tail, rfl⟩

/-! ## The plan is the table -/

theorem sink?_setSink (p : Plan) (handle : Nat) (sink : Sink) :
    (p.setSink handle sink).sink? = Descriptors.set p.sink? handle sink := by
  funext n
  match handle, n with
  | 0, n => match n with | 0 | 1 | 2 | _ + 3 => rfl
  | 1, n => match n with | 0 | 1 | 2 | _ + 3 => simp [setSink, sink?, Descriptors.set]
  | 2, n => match n with | 0 | 1 | 2 | _ + 3 => simp [setSink, sink?, Descriptors.set]
  | _ + 3, n => match n with | 0 | 1 | 2 | _ + 3 => simp [setSink, sink?, Descriptors.set]

theorem sink?_take (p : Plan) (o : Opening) : (p.take o).sink? = Descriptors.take p.sink? o := by
  cases o with
  | input text => rfl
  | output handle path append => exact sink?_setSink ..
  | discard handle => exact sink?_setSink ..
  | copy handle source =>
    simp only [take, Descriptors.take]
    split
    · exact sink?_setSink ..
    · rfl
  | nothing => rfl

theorem sink?_foldl_take (p : Plan) (os : List Opening) :
    (os.foldl take p).sink? = os.foldl Descriptors.take p.sink? := by
  induction os generalizing p with
  | nil => rfl
  | cons o os ih => simp only [List.foldl_cons, ih, sink?_take]

theorem sink?_standard : standard.sink? = Descriptors.initial := by
  funext n
  match n with
  | 0 | 1 | 2 | _ + 3 => rfl

theorem stdin_setSink (p : Plan) (handle : Nat) (sink : Sink) : (p.setSink handle sink).stdin = p.stdin := by
  match handle with
  | 0 | 1 | 2 | _ + 3 => rfl

theorem stdin_take (p : Plan) (o : Opening) : (p.take o).stdin = o.input?.or p.stdin := by
  cases o with
  | input text => rfl
  | output handle path append => exact stdin_setSink ..
  | discard handle => exact stdin_setSink ..
  | copy handle source =>
    simp only [take]
    split
    · exact stdin_setSink ..
    · rfl
  | nothing => rfl

/-- The last input counts. -/
theorem stdin_foldl_take (p : Plan) (os : List Opening) :
    (os.foldl take p).stdin = (os.filterMap Opening.input?).getLast?.or p.stdin := by
  induction os generalizing p with
  | nil => rfl
  | cons o os ih =>
    rw [List.foldl_cons, ih, stdin_take]
    cases hinput : o.input? with
    | none => simp [hinput]
    | some text =>
      rw [List.filterMap_cons_some hinput, List.getLast?_cons]
      cases (os.filterMap Opening.input?).getLast? <;> rfl

end Plan

/-! ## What the openings do to the files -/

/-- How an opening opens the file at a location: is output added to it? -/
def Opening.appends? (files : FileTree) (place : Location) : Opening → Option Bool
  | .output _ path append => if files.locate path = some place then some append else none
  | _ => none

/-- The contents of a file that is opened for output in these ways, one after the other. Once it is opened for new
output it is empty, and a file that was missing is made. -/
def openedContents (ways : List Bool) (old : Option ByteArray) : Option ByteArray :=
  if ways = [] then old else some (if ways.all id then old.getD ByteArray.empty else ByteArray.empty)

theorem openedContents_cons (append : Bool) (ways : List Bool) (old : Option ByteArray) :
    openedContents (append :: ways) old =
      openedContents ways (some (if append then old.getD ByteArray.empty else ByteArray.empty)) := by
  cases append <;> cases ways <;> simp [openedContents]

section

variable {s : State} {files opened : FileTree} {r : Redirection} {o : Opening} {rs : List Redirection}
  {os : List Opening}

theorem Opens.locate_eq (h : Opens s files r o opened) : opened.locate = files.locate := by
  cases h with
  | output out plain opens => exact FileTree.locate_eq_of_write? opens
  | _ => rfl

theorem Opens.contents?_eq (h : Opens s files r o opened) (place : Location) :
    opened.contents? place = openedContents (o.appends? files place).toList (files.contents? place) := by
  cases h with
  | output out plain opens =>
    rw [FileTree.contents?_of_write? opens, Opening.appends?]
    split
    · simp [openedContents]
    · rfl
  | _ => rfl

theorem FileTree.Writable.opens {place : Location} (hplace : files.Writable place)
    (h : Opens s files r o opened) : opened.Writable place := by
  cases h with
  | output out plain opens => exact hplace.write? opens
  | _ => exact hplace

theorem OpensAll.locate_eq (h : OpensAll s files rs os opened) : opened.locate = files.locate := by
  induction h with
  | nil => rfl
  | cons head tail ih => rw [ih, head.locate_eq]

/-- A file that was opened has its old contents if output was only ever added to it, and none otherwise. A file
that was not opened is as it was. -/
theorem contents?_opened (h : OpensAll s files rs os opened) (place : Location) :
    opened.contents? place =
      openedContents (os.filterMap (·.appends? files place)) (files.contents? place) := by
  induction h with
  | nil => rfl
  | cons head tail ih =>
    rename_i files r o opened rs os last
    have hways : os.filterMap (·.appends? opened place) = os.filterMap (·.appends? files place) := by
      simp only [Opening.appends?, head.locate_eq]
    rw [ih, hways, head.contents?_eq]
    cases hfirst : o.appends? files place with
    | none => rw [List.filterMap_cons_none hfirst]; rfl
    | some append =>
      rw [List.filterMap_cons_some hfirst, openedContents_cons]
      simp [openedContents]

end

/-! ## Delivering -/

/-- Where a sink is a file, the file is there and may be written. -/
def Sink.Stands (files : FileTree) (sink : Sink) : Prop :=
  ∀ path, sink = .file path → ∃ place, files.locate path = some place ∧ files.Writable place

/-- The files of a plan are there and may be written. -/
structure Plan.Stands (files : FileTree) (p : Plan) : Prop where
  stdout : p.stdout.Stands files
  stderr : p.stderr.Stands files

/-- Does a sink lead to a location? -/
def Sink.leadsTo (files : FileTree) (place : Location) : Sink → Bool
  | .file path => files.locate path == some place
  | _ => false

/-- The text of an outcome that reaches an end, its output before its errors, if the handles end where `table`
says. -/
def Descriptors.textTo (table : Descriptors) (o : Outcome) (ends : Sink → Bool) : String :=
  (if (table 1).any ends then o.stdout else "") ++ (if (table 2).any ends then o.stderr else "")

/-- What broke off has no text. -/
theorem Descriptors.textTo_crashed (table : Descriptors) (why : Crash) (ends : Sink → Bool) :
    table.textTo (.crashed why) ends = "" := by
  simp [textTo, Outcome.stdout, Outcome.stderr]

/-- The texts of `o` have gone where the table says: to the streams that `d` has, and to the ends of the files. -/
structure Delivered (table : Descriptors) (o : Outcome) (files : FileTree) (d : Outcome × FileTree) : Prop where
  ending : d.1.ending = o.ending
  stdout : d.1.stdout = table.textTo o (· == .stdout)
  stderr : d.1.stderr = table.textTo o (· == .stderr)
  locate : d.2.locate = files.locate
  contents (place : Location) : d.2.contents? place =
    (files.contents? place).map (· ++ Text.encode (table.textTo o (Sink.leadsTo files place)))

/-- A text has gone to one sink. -/
structure Routed (sink : Sink) (text : String) (r : Result) (files : FileTree) (d : Result × FileTree) : Prop where
  stdout : d.1.stdout = r.stdout ++ if sink == .stdout then text else ""
  stderr : d.1.stderr = r.stderr ++ if sink == .stderr then text else ""
  locate : d.2.locate = files.locate
  writable (place : Location) : files.Writable place → d.2.Writable place
  contents (place : Location) : d.2.contents? place =
    (files.contents? place).map (· ++ Text.encode (if sink.leadsTo files place then text else ""))

theorem Text.encode_append (a b : String) : Text.encode (a ++ b) = Text.encode a ++ Text.encode b := by
  simp [Text.encode]

theorem Text.append_encode_empty (bytes : ByteArray) : bytes ++ Text.encode "" = bytes := by
  simp [Text.encode]

section

variable {sink : Sink} {files later : FileTree}

/-- Files that may be written stay so while their paths lead to the same places and no file is taken away. -/
theorem Sink.Stands.mono (h : sink.Stands files) (hlocate : later.locate = files.locate)
    (hkept : ∀ place, files.Writable place → later.Writable place) : sink.Stands later := by
  intro path hpath
  obtain ⟨place, hplace, hwritable⟩ := h path hpath
  exact ⟨place, by rw [hlocate, hplace], hkept place hwritable⟩

namespace Plan

theorem route_empty (sink : Sink) (r : Result) (files : FileTree) : route sink "" r files = (r, files) := rfl

theorem routed_route (h : sink.Stands files) (text : String) (r : Result) :
    Routed sink text r files (route sink text r files) := by
  by_cases hempty : text = ""
  · subst hempty
    rw [route_empty]
    exact ⟨by simp, by simp, rfl, fun _ => id, by simp [Text.append_encode_empty]⟩
  have hsome : ¬ text.isEmpty = true := by simpa using hempty
  simp only [route, if_neg hsome]
  cases sink with
  | stdout => exact ⟨by simp, by simp, rfl, fun _ => id, by simp [Text.append_encode_empty, Sink.leadsTo]⟩
  | stderr => exact ⟨by simp, by simp, rfl, fun _ => id, by simp [Text.append_encode_empty, Sink.leadsTo]⟩
  | discard => exact ⟨by simp, by simp, rfl, fun _ => id, by simp [Text.append_encode_empty, Sink.leadsTo]⟩
  | file path =>
    obtain ⟨place, hplace, hwritable⟩ := h path rfl
    obtain ⟨old, hold⟩ := hwritable.exists_contents?
    obtain ⟨written, hwritten⟩ := hwritable.exists_append? hplace text
    simp only [hwritten]
    refine ⟨by simp, by simp, FileTree.locate_eq_of_write? hwritten, fun _ hq => hq.write? hwritten, fun q => ?_⟩
    rw [FileTree.contents?_of_write? hwritten]
    by_cases hq : place = q
    · subst hq
      simp [Sink.leadsTo, hplace, hold]
    · simp [Sink.leadsTo, hplace, hq, Text.append_encode_empty]

/-- Delivering a result sends its output and then its errors to where their slots say. -/
theorem delivered_deliver {p : Plan} (h : p.Stands files) (r : Result) :
    Delivered p.sink? (.done r) files (.done (p.deliver r files).1, (p.deliver r files).2) := by
  have hout := routed_route h.stdout r.stdout ⟨"", "", r.status⟩
  have hstands := h.stderr.mono hout.locate hout.writable
  have herr := routed_route hstands r.stderr (route p.stdout r.stdout ⟨"", "", r.status⟩ files).1
  exact {
    ending := congrArg Ending.status (status_deliver p r files)
    stdout := by
      refine herr.stdout.trans ?_
      rw [hout.stdout, String.empty_append]
      rfl
    stderr := by
      refine herr.stderr.trans ?_
      rw [hout.stderr, String.empty_append]
      rfl
    locate := herr.locate.trans hout.locate
    contents := fun place => by
      refine (herr.contents place).trans ?_
      have hleads : p.stderr.leadsTo (route p.stdout r.stdout ⟨"", "", r.status⟩ files).2 place =
          p.stderr.leadsTo files place := by
        cases p.stderr <;> simp only [Sink.leadsTo, hout.locate]
      rw [hout.contents, hleads, Option.map_map]
      congr 1
      funext old
      rw [Function.comp_apply, ByteArray.append_assoc, ← Text.encode_append]
      rfl }

/-- So does delivering an outcome, which keeps its ending. -/
theorem delivered_deliverOutcome {p : Plan} (h : p.Stands files) (o : Outcome) :
    Delivered p.sink? o files (p.deliverOutcome o files) := by
  cases o with
  | done r => exact delivered_deliver h r
  | raised signal out err =>
    have hall := delivered_deliver h ⟨out, err, 0⟩
    exact ⟨rfl, hall.stdout, hall.stderr, hall.locate, hall.contents⟩
  | crashed why =>
    have hnone (ends : Sink → Bool) : Descriptors.textTo p.sink? (.crashed why) ends = "" :=
      Descriptors.textTo_crashed p.sink? why ends
    exact ⟨rfl, (hnone _).symm, (hnone _).symm, rfl, fun place => by
      simp [hnone, deliverOutcome, Text.append_encode_empty]⟩

/-! ## Files that were opened are there -/

theorem Stands.setSink {p : Plan} (h : p.Stands files) (hsink : sink.Stands files) (handle : Nat) :
    (p.setSink handle sink).Stands files := by
  match handle with
  | 1 => exact ⟨hsink, h.stderr⟩
  | 2 => exact ⟨h.stdout, hsink⟩
  | 0 | _ + 3 => exact h

theorem Stands.mono {p : Plan} (h : p.Stands files) (hlocate : later.locate = files.locate)
    (hkept : ∀ place, files.Writable place → later.Writable place) : p.Stands later :=
  ⟨h.stdout.mono hlocate hkept, h.stderr.mono hlocate hkept⟩

theorem stands_of_sink? {p : Plan} (h : p.Stands files) {handle : Nat} (hsink : p.sink? handle = some sink) :
    sink.Stands files := by
  match handle with
  | 1 => cases hsink; exact h.stdout
  | 2 => cases hsink; exact h.stderr
  | 0 | _ + 3 => cases hsink

theorem Stands.take {p : Plan} {s : State} {opened : FileTree} {r : Redirection} {o : Opening}
    (h : p.Stands files) (hopens : Opens s files r o opened) : (p.take o).Stands opened := by
  have hkept : p.Stands opened := h.mono hopens.locate_eq fun place hplace => hplace.opens hopens
  cases hopens with
  | noInput device => exact ⟨hkept.stdout, hkept.stderr⟩
  | input plain read => exact ⟨hkept.stdout, hkept.stderr⟩
  | inputHandle => exact hkept
  | discard out device => exact hkept.setSink (fun _ hpath => Sink.noConfusion hpath) _
  | output out plain opens =>
    refine hkept.setSink (fun path hpath => ?_) _
    cases hpath
    obtain ⟨place, -, hplace, -⟩ := FileTree.write?_eq_some opens
    exact ⟨place, by rw [FileTree.locate_eq_of_write? opens, hplace], FileTree.writable_of_write? opens hplace⟩
  | copy out =>
    simp only [Plan.take]
    split
    · rename_i hsink
      exact hkept.setSink (stands_of_sink? hkept hsink) _
    · exact hkept

theorem Stands.foldl_take {p : Plan} {s : State} {opened : FileTree} {rs : List Redirection} {os : List Opening}
    (h : p.Stands files) (hopens : OpensAll s files rs os opened) : (os.foldl Plan.take p).Stands opened := by
  induction hopens generalizing p with
  | nil => exact h
  | cons head tail ih => exact ih (h.take head)

theorem stands_standard (files : FileTree) : standard.Stands files :=
  ⟨fun _ hpath => Sink.noConfusion hpath, fun _ hpath => Sink.noConfusion hpath⟩

/-! ## The whole -/

/-- Redirections can be taken in exactly if every file can be opened. The slots of the plan are then those of the
table, its input is the last one, and an outcome's texts go to what the slots name, at the end of what the files
hold by then. -/
theorem redirections_lose_nothing (s : State) (files : FileTree) (rs : List Redirection) :
    ((∃ plan opened, prepare s files rs = (.ok plan, opened)) ↔ ∃ os opened, OpensAll s files rs os opened) ∧
    ∀ os opened, OpensAll s files rs os opened → ∃ plan, prepare s files rs = (.ok plan, opened) ∧
      plan.sink? = os.foldl Descriptors.take .initial ∧
      plan.stdin = (os.filterMap Opening.input?).getLast? ∧
      opened.locate = files.locate ∧
      (∀ place, opened.contents? place =
        openedContents (os.filterMap (·.appends? files place)) (files.contents? place)) ∧
      plan.Stands opened ∧
      ∀ later, plan.Stands later → ∀ o, Delivered plan.sink? o later (plan.deliverOutcome o later) := by
  have hprepare {os opened} (h : OpensAll s files rs os opened) :
      prepare s files rs = (.ok (os.foldl take standard), opened) := addAll_eq_ok_iff.mpr ⟨os, h, rfl⟩
  refine ⟨⟨?_, ?_⟩, ?_⟩
  · rintro ⟨plan, opened, h⟩
    obtain ⟨os, hopens, -⟩ := addAll_eq_ok_iff.mp h
    exact ⟨os, opened, hopens⟩
  · rintro ⟨os, opened, h⟩
    exact ⟨_, opened, hprepare h⟩
  · intro os opened h
    refine ⟨_, hprepare h, ?_, ?_, h.locate_eq, contents?_opened h, (stands_standard files).foldl_take h, ?_⟩
    · rw [sink?_foldl_take, sink?_standard]
    · rw [stdin_foldl_take]
      exact Option.or_none
    · exact fun later hlater o => delivered_deliverOutcome hlater o

/-- `> both 2>&1` with old contents in the file: both texts are in it, and nothing else. -/
theorem redirections_lose_nothing_both :
    let files : FileTree := ⟨[(["both"], .file ⟨Text.encode "old", false, false⟩)], [], "", false⟩
    let rs : List Redirection := [⟨1, .output, .file "both"⟩, ⟨2, .output, .handle 1⟩]
    let s : State := .initial .empty "/"
    let o : Outcome := .done ⟨"out ", "err", 1⟩
    ∃ os opened, OpensAll s files rs os opened ∧ ∃ plan, prepare s files rs = (.ok plan, opened) ∧
      plan.sink? 1 = some (.file "/both") ∧ plan.sink? 2 = some (.file "/both") ∧
      (plan.deliverOutcome o opened).1.ending = .status 1 ∧
      (plan.deliverOutcome o opened).2.contents? ["both"] = some (Text.encode "out err") := by
  intro files rs s o
  have hpath : Path.resolve s.cwd (s.named files "both") = "/both" := by decide +kernel
  have hlocate : files.locate "/both" = some ["both"] := by decide +kernel
  have hplain : isNullDevice (s.named files "both") = false := by decide +kernel
  obtain ⟨emptied, hopen⟩ : ∃ emptied, files.openOutput? "/both" false = some emptied := by
    rw [FileTree.openOutput?, FileTree.write?, hlocate]
    exact ⟨_, rfl⟩
  have hboth : Opens s files ⟨1, .output, .file "both"⟩ (.output 1 "/both" false) emptied := by
    have h : Opens s files ⟨1, .output, .file "both"⟩ (.output 1 (Path.resolve s.cwd (s.named files "both")) false)
        emptied := .output (by decide) hplain (hpath.symm ▸ hopen)
    rwa [hpath] at h
  have hopens : OpensAll s files rs [.output 1 "/both" false, .copy 2 1] _ :=
    .cons hboth (.cons (.copy (by decide)) .nil)
  obtain ⟨plan, hprepare, hsinks, -, hsame, hcontents, hstands, hdeliver⟩ :=
    (redirections_lose_nothing s files rs).2 _ _ hopens
  have hdelivered := hdeliver _ hstands o
  have hone : plan.sink? 1 = some (.file "/both") := by rw [hsinks]; rfl
  have htwo : plan.sink? 2 = some (.file "/both") := by rw [hsinks]; rfl
  refine ⟨_, _, hopens, plan, hprepare, hone, htwo, hdelivered.ending, ?_⟩
  have hleads : (Sink.file "/both").leadsTo emptied ["both"] = true := by simp [Sink.leadsTo, hsame, hlocate]
  have hemptied : openedContents ([Opening.output 1 "/both" false, .copy 2 1].filterMap
      (·.appends? files ["both"])) (files.contents? ["both"]) = some ByteArray.empty := by
    simp [Opening.appends?, hlocate, openedContents]
  have htext : Descriptors.textTo plan.sink? o (Sink.leadsTo emptied ["both"]) = "out err" := by
    rw [Descriptors.textTo, hone, htwo, Option.any_some, hleads]
    rfl
  rw [hdelivered.contents, hcontents, hemptied, htext, Option.map_some, ByteArray.empty_append]

end Plan

end

end BatchShell
