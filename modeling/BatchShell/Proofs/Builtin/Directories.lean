import BatchShell.Builtin.Directory
import BatchShell.Proofs.Text.Bytes

/-!
# Going to directories and returning

CD and PUSHD take the same texts for directories. The one difference is the switch `/D` of CD: it is looked for in the
first two bytes of the text, and where these end inside a character, CD breaks off on a name that PUSHD goes to.

* `splitsCharacter_iff`: the first characters of the names on which CD breaks off.
* `runCd_agrees`: on all other names CD ends as PUSHD does.
* `after_balanced`: commands that come to an end, and between which every PUSHD meets its POPD, leave the stack as it
  is.
* `cd_agrees_unless_split`: agreement and return, for every state.
* `cd_breaks_off`: a directory that PUSHD goes to and CD does not.
-/
namespace BatchShell.Builtin

open Text

variable {files : FileTree} {s t : State} {text raw : String}

/-! ## The switch of CD -/

/-- Do the first two bytes of a text end inside a character? -/
def SplitsCharacter (text : String) : Prop := 2 ≤ text.utf8ByteSize ∧ isBoundary (toBytes text) 2 = false

instance : Decidable (SplitsCharacter text) := inferInstanceAs (Decidable (_ ∧ _))

/-- Does a text start with `/D`, in either case? -/
def HasDriveSwitch (text : String) : Prop := ['/', 'D'] <+: text.toList.map Char.toUpper

instance : Decidable (HasDriveSwitch text) := inferInstanceAs (Decidable (_ <+: _))

theorem splitsCharacter_iff_cut :
    SplitsCharacter text ↔ 2 ≤ text.utf8ByteSize ∧ cutBytes? 2 text.toList = none := by
  rw [SplitsCharacter, toBytes_eq_utf8, cutBytes?_eq_none_iff]

theorem utf8ByteSize_eq (text : String) : text.utf8ByteSize = (utf8 text.toList).length := by
  rw [← toBytes_eq_utf8]
  rfl

/-- A name splits a character if it starts with one of three or four bytes, or with one of a single byte and then a
longer one. -/
theorem splitsCharacter_iff : SplitsCharacter text ↔ ∃ c ∈ text.toList[0]?,
    2 < c.utf8Size ∨ c.utf8Size = 1 ∧ ∃ d ∈ text.toList[1]?, 1 < d.utf8Size := by
  rw [splitsCharacter_iff_cut, utf8ByteSize_eq]
  rcases text.toList with _ | ⟨c, cs⟩
  · simp
  · have hpos := c.utf8Size_pos
    obtain hone | htwo | hmore : c.utf8Size = 1 ∨ c.utf8Size = 2 ∨ 2 < c.utf8Size := by omega
    · -- the second byte is the first one of what follows
      cases cs with
      | nil => simp [hone]
      | cons d cs =>
        have hnext := d.utf8Size_pos
        by_cases hlong : 1 < d.utf8Size
        · have htwo : 2 ≤ 1 + (d.utf8Size + (utf8 cs).length) := by omega
          simp [hone, hlong, htwo, cutBytes?]
        · have hshort : d.utf8Size = 1 := by omega
          simp [hone, hshort, cutBytes?]
    · simp [htwo, cutBytes?]
    · have htwo : 2 ≤ c.utf8Size + (utf8 cs).length := by omega
      simp [hmore, htwo, cutBytes?]

theorem dropDriveSwitch_of_splits (h : SplitsCharacter text) : dropDriveSwitch text = .error .splitCharacter := by
  obtain ⟨hlong, hcut⟩ := splitsCharacter_iff_cut.mp h
  rw [dropDriveSwitch, if_neg (by omega), hcut]

theorem dropDriveSwitch_of_not_splits (h : ¬ SplitsCharacter text) : ∃ dropped, dropDriveSwitch text = .ok dropped := by
  unfold dropDriveSwitch
  split
  · exact ⟨text, rfl⟩
  · cases hcut : cutBytes? 2 text.toList with
    | none => exact absurd (splitsCharacter_iff_cut.mpr ⟨by omega, hcut⟩) h
    | some parts => exact ⟨_, rfl⟩

theorem dropDriveSwitch_of_not_hasDriveSwitch (hwhole : ¬ SplitsCharacter text) (hswitch : ¬ HasDriveSwitch text) :
    dropDriveSwitch text = .ok text := by
  unfold dropDriveSwitch
  split
  · rfl
  split
  · rename_i hcut
    exact absurd (splitsCharacter_iff_cut.mpr ⟨by omega, hcut⟩) hwhole
  · rename_i start rest hcut
    have htext : text.toList = start ++ rest := (of_cutBytes? hcut).1
    have hother : sameIgnoringCase (String.ofList start) "/D" = false := by
      refine Bool.eq_false_iff.mpr fun hsame => hswitch ?_
      have hstart : start.map Char.toUpper = ['/', 'D'] := by
        simpa [sameIgnoringCase, upper, ← String.toList_inj] using hsame
      rw [HasDriveSwitch, htext, List.map_append, hstart]
      exact List.prefix_append _ _
    simp [hother]

/-- CD breaks off where the first two bytes of its text end inside a character, and nowhere else. -/
theorem runCd_eq_crashed (h : SplitsCharacter (trim raw)) : runCd files s raw = (.crashed .splitCharacter, s) := by
  rw [runCd, dropDriveSwitch_of_splits h]

theorem runCd_done_iff : (∃ r, (runCd files s raw).1 = .done r) ↔ ¬ SplitsCharacter (trim raw) := by
  constructor
  · rintro ⟨r, hr⟩ hsplit
    rw [runCd_eq_crashed hsplit] at hr
    cases hr
  · intro hwhole
    obtain ⟨dropped, hdropped⟩ := dropDriveSwitch_of_not_splits hwhole
    rw [runCd, hdropped]
    dsimp only
    split
    · exact ⟨_, rfl⟩
    · split <;> exact ⟨_, rfl⟩

/-! ## CD and PUSHD -/

/-- CD and PUSHD take a text in the same way from the state `s`. -/
structure Agree (s : State) (cd : Outcome × State) (pushd : Result × State) : Prop where
  /-- CD comes to an end, and both succeed or neither does. -/
  succeeds_iff : ∃ r, cd.1 = .done r ∧ (r.status = 0 ↔ pushd.1.status = 0)
  /-- Both go to one directory, and PUSHD also notes where it was. -/
  success : pushd.1.status = 0 → ∃ path, cd = (.done .ok, { s with cwd := path }) ∧
    pushd = (.ok, { s with cwd := path, directories := s.cwd :: s.directories })
  /-- Both say the same and leave the state as it is. -/
  failure : pushd.1.status ≠ 0 →
    cd = (.done ⟨"", Complaint.pathNotFound, 1⟩, s) ∧ pushd = (⟨"", Complaint.pathNotFound, 1⟩, s)

theorem runPushd_of_name (hname : trim raw ≠ "") : runPushd files s raw =
    match directory? files s (trim raw) with
    | some path => (.ok, { s with cwd := path, directories := s.cwd :: s.directories })
    | none => (.failure Complaint.pathNotFound, s) := by
  unfold runPushd
  exact if_neg (by simpa using hname)

theorem runCd_of_name (hname : trim raw ≠ "") (hwhole : ¬ SplitsCharacter (trim raw))
    (hswitch : ¬ HasDriveSwitch (trim raw)) : runCd files s raw =
    match directory? files s (trim raw) with
    | some path => (.done .ok, { s with cwd := path })
    | none => (.done (.failure Complaint.pathNotFound), s) := by
  rw [runCd, dropDriveSwitch_of_not_hasDriveSwitch hwhole hswitch]
  exact if_neg (by simpa using hname)

theorem runCd_agrees (hname : trim raw ≠ "") (hwhole : ¬ SplitsCharacter (trim raw))
    (hswitch : ¬ HasDriveSwitch (trim raw)) : Agree s (runCd files s raw) (runPushd files s raw) := by
  rw [runCd_of_name hname hwhole hswitch, runPushd_of_name hname]
  cases directory? files s (trim raw) with
  | none =>
    have hfails : Result.status (.failure Complaint.pathNotFound) ≠ 0 := by decide
    exact ⟨⟨_, rfl, Iff.rfl⟩, fun hsucceeds => absurd hsucceeds hfails, fun _ => ⟨rfl, rfl⟩⟩
  | some path => exact ⟨⟨_, rfl, Iff.rfl⟩, fun _ => ⟨path, rfl, rfl⟩, fun hfails => absurd rfl hfails⟩

/-! ## Series of commands -/

/-- A command that changes directories, with the files as it finds them and the text after its name. -/
inductive Move where
  | cd (files : FileTree) (raw : String)
  | pushd (files : FileTree) (raw : String)
  | popd

/-- Run a command. -/
def Move.run (s : State) : Move → Outcome × State
  | .cd files raw => runCd files s raw
  | .pushd files raw => (.done (runPushd files s raw).1, (runPushd files s raw).2)
  | .popd => (.done (runPopd s).1, (runPopd s).2)

@[simp] theorem Move.run_cd : (Move.cd files raw).run s = runCd files s raw := rfl

@[simp] theorem Move.run_pushd : ((Move.pushd files raw).run s).2 = (runPushd files s raw).2 := by
  rw [Move.run]

@[simp] theorem Move.run_popd : (Move.popd.run s).2 = (runPopd s).2 := rfl

/-- A PUSHD goes to a directory. A CD may fail, but it comes to an end. -/
def Move.Succeeds (s : State) : Move → Prop
  | .cd files raw => ∃ r, (runCd files s raw).1 = .done r
  | .pushd files raw => trim raw ≠ "" ∧ (runPushd files s raw).1.status = 0
  | .popd => True

/-- The state after a series of commands. -/
def after (s : State) : List Move → State
  | [] => s
  | move :: moves => after (move.run s).2 moves

/-- Every command of a series succeeds in this sense, where it is run. -/
def AllSucceed (s : State) : List Move → Prop
  | [] => True
  | move :: moves => move.Succeeds s ∧ AllSucceed (move.run s).2 moves

/-- Every PUSHD of a series has its POPD behind it, and every POPD its PUSHD before it. -/
inductive Balanced : List Move → Prop
  | nil : Balanced []
  | cd {moves : List Move} (files : FileTree) (raw : String) :
      Balanced moves → Balanced (.cd files raw :: moves)
  | pushd {inner rest : List Move} (files : FileTree) (raw : String) :
      Balanced inner → Balanced rest → Balanced (.pushd files raw :: (inner ++ .popd :: rest))

variable {moves : List Move}

theorem after_append (s : State) (moves more : List Move) :
    after s (moves ++ more) = after (after s moves) more := by
  induction moves generalizing s with
  | nil => rfl
  | cons move moves ih => exact ih (move.run s).2

theorem allSucceed_append {more : List Move} :
    AllSucceed s (moves ++ more) ↔ AllSucceed s moves ∧ AllSucceed (after s moves) more := by
  induction moves generalizing s with
  | nil => exact (Iff.of_eq (true_and _)).symm
  | cons move moves ih => rw [List.cons_append, AllSucceed, ih, AllSucceed, after, and_assoc]

/-- The states differ at most in the working directory. -/
def SameButCwd (s t : State) : Prop := ∃ path, t = { s with cwd := path }

theorem SameButCwd.trans {u : State} (hst : SameButCwd s t) (htu : SameButCwd t u) : SameButCwd s u := by
  obtain ⟨_, rfl⟩ := hst
  obtain ⟨path, rfl⟩ := htu
  exact ⟨path, rfl⟩

/-- A PUSHD that succeeds notes where it was. -/
theorem runPushd_of_succeeds (h : (Move.pushd files raw).Succeeds s) :
    SameButCwd { s with directories := s.cwd :: s.directories } (runPushd files s raw).2 := by
  obtain ⟨hname, hstatus⟩ := h
  rw [runPushd_of_name hname] at hstatus ⊢
  cases hdirectory : directory? files s (trim raw) with
  | none =>
    rw [hdirectory] at hstatus
    exact absurd hstatus (by decide : (1 : Status) ≠ 0)
  | some path => exact ⟨path, rfl⟩

/-- A POPD leads back to where its PUSHD was, if the stack is as the PUSHD left it. -/
theorem runPopd_sameButCwd (h : SameButCwd { s with directories := s.cwd :: s.directories } t) :
    (runPopd t).2 = s := by
  obtain ⟨path, rfl⟩ := h
  rfl

theorem after_balanced (hbalanced : Balanced moves) (hall : AllSucceed s moves) : SameButCwd s (after s moves) := by
  induction hbalanced generalizing s with
  | nil => exact ⟨s.cwd, rfl⟩
  | cd files raw _ ih =>
    rw [AllSucceed, Move.run_cd] at hall
    rw [after, Move.run_cd]
    exact SameButCwd.trans (exists_cwd_runCd files s raw) (ih hall.2)
  | pushd files raw _ _ ihinner ihrest =>
    rw [AllSucceed, Move.run_pushd, allSucceed_append, AllSucceed, Move.run_popd] at hall
    obtain ⟨hsucceeds, hinner, -, hrest⟩ := hall
    have hback := runPopd_sameButCwd ((runPushd_of_succeeds hsucceeds).trans (ihinner hinner))
    rw [after, Move.run_pushd, after_append, after, Move.run_popd, hback]
    rw [hback] at hrest
    exact ihrest hrest

/-- **CD, PUSHD and the way back.** CD breaks off on the names that split a character, which the first two characters
tell. It takes all other names as PUSHD does. And the POPD of a PUSHD brings the state back, whatever balanced series of
commands that come to an end stands between them. -/
theorem cd_agrees_unless_split (s : State) :
    (∀ files raw, trim raw ≠ "" → ¬ HasDriveSwitch (trim raw) →
      ((runCd files s raw).1 = .crashed .splitCharacter ↔ SplitsCharacter (trim raw)) ∧
      (SplitsCharacter (trim raw) ↔ ∃ c ∈ (trim raw).toList[0]?,
        2 < c.utf8Size ∨ c.utf8Size = 1 ∧ ∃ d ∈ (trim raw).toList[1]?, 1 < d.utf8Size) ∧
      (¬ SplitsCharacter (trim raw) → Agree s (runCd files s raw) (runPushd files s raw))) ∧
    ∀ files raw inner, AllSucceed s (.pushd files raw :: inner) → Balanced inner →
      after s (.pushd files raw :: (inner ++ [.popd])) = s := by
  refine ⟨fun files raw hname hswitch => ⟨⟨fun hcrashed => ?_, fun hsplit => ?_⟩, splitsCharacter_iff,
    fun hwhole => runCd_agrees hname hwhole hswitch⟩, ?_⟩
  · refine Decidable.byContradiction fun hwhole => ?_
    obtain ⟨r, hr⟩ := runCd_done_iff.mpr hwhole
    cases hr.symm.trans hcrashed
  · rw [runCd_eq_crashed hsplit]
  · intro files raw inner hall hbalanced
    rw [AllSucceed, Move.run_pushd] at hall
    rw [after, Move.run_pushd, after_append, after, after, Move.run_popd]
    exact runPopd_sameButCwd ((runPushd_of_succeeds hall.1).trans (after_balanced hbalanced hall.2))

/-- Two directories in the root. The names are made of the same two characters, one of a byte and one of two. -/
def twoNames : FileTree := { FileTree.empty with entries := [(["éa"], .directory), (["aé"], .directory)] }

/-- A session in the root. -/
def atRoot : State := .initial .empty "/"

/-- The name whose longer character comes first, and a series that goes there and back twice. -/
theorem cd_agrees_unless_split_whole :
    (trim " éa" ≠ "" ∧ ¬ HasDriveSwitch (trim " éa") ∧ ¬ SplitsCharacter (trim " éa") ∧
      Agree atRoot (runCd twoNames atRoot " éa") (runPushd twoNames atRoot " éa")) ∧
    after atRoot (.pushd twoNames " éa" :: ([.cd twoNames " ..", .pushd twoNames " éa", .cd twoNames " nowhere",
      .popd, .cd twoNames " éa"] ++ [.popd])) = atRoot := by
  have hname : trim " éa" ≠ "" := by decide +kernel
  have hswitch : ¬ HasDriveSwitch (trim " éa") := by decide +kernel
  have hwhole : ¬ SplitsCharacter (trim " éa") := by decide +kernel
  have hagree := ((cd_agrees_unless_split atRoot).1 twoNames " éa" hname hswitch).2.2 hwhole
  refine ⟨⟨hname, hswitch, hwhole, hagree⟩, (cd_agrees_unless_split atRoot).2 _ _ _ ?_ ?_⟩
  · have hends {s : State} {raw : String} (h : ¬ SplitsCharacter (trim raw)) :
        (Move.cd twoNames raw).Succeeds s := runCd_done_iff.mpr h
    exact ⟨⟨hname, by decide +kernel⟩, hends (by decide +kernel), ⟨hname, by decide +kernel⟩,
      hends (by decide +kernel), trivial, hends hwhole, trivial⟩
  · exact .cd _ _ (.pushd _ _ (.cd _ _ .nil) (.cd _ _ .nil))

/-- PUSHD goes to the directory `aé`, and CD breaks off on its name. -/
theorem cd_breaks_off :
    trim " aé" ≠ "" ∧ ¬ HasDriveSwitch (trim " aé") ∧
    runPushd twoNames atRoot " aé" = (.ok, { atRoot with cwd := "/aé", directories := ["/"] }) ∧
    runCd twoNames atRoot " aé" = (.crashed .splitCharacter, atRoot) := by
  decide +kernel

end BatchShell.Builtin
