import BatchShell.FileTree

/-!
# What a write changes

A write puts the contents of one file in place and leaves the rest of the tree alone. `FileTree.contents?` is what
can be seen of that: the contents of the file at a location. Because a write never makes or removes a directory,
every path leads where it did before (`locate_eq_of_write?`), so the writes of a command can be followed location
by location even when two of its paths lead to one file.
-/
namespace BatchShell

namespace FileTree

variable {tree tree' : FileTree} {path : String} {place : Location}

/-- The contents of the file at a location. -/
def contents? (tree : FileTree) (place : Location) : Option ByteArray :=
  match tree.at? place with
  | some (.file data) => some data.contents
  | _ => none

theorem lookup_put_go (place : Location) (entry : Entry) (entries : List (Location × Entry)) (q : Location) :
    (put.go place entry entries).lookup q = if q = place then some entry else entries.lookup q := by
  induction entries with
  | nil =>
    by_cases hq : q = place
    · simp [put.go, hq]
    · have hne : (q == place) = false := by simpa using hq
      simp [put.go, List.lookup_cons, hq, hne]
  | cons head rest ih =>
    obtain ⟨p, e⟩ := head
    by_cases hp : p = place
    · by_cases hq : q = place
      · simp [put.go, hp, hq]
      · have hne : (q == place) = false := by simpa using hq
        simp [put.go, hp, hq, List.lookup_cons, hne]
    · by_cases hq : q = p
      · subst hq
        simp [put.go, hp]
      · have hne : (q == p) = false := by simpa using hq
        simp [put.go, hp, List.lookup_cons, hne, ih]

/-- The root stays a directory, whatever is put there. -/
theorem at?_put (tree : FileTree) (place : Location) (entry : Entry) (q : Location) :
    (tree.put place entry).at? q = if q ≠ [] ∧ q = place then some entry else tree.at? q := by
  cases q with
  | nil => simp [at?]
  | cons name names => simp [at?, put, lookup_put_go]

theorem walk_congr (h : ∀ q, tree'.isDirectoryAt q = tree.isDirectoryAt q) (place : Location)
    (names : List String) : tree'.walk place names = tree.walk place names := by
  induction names generalizing place with
  | nil => rfl
  | cons name names ih => simp only [walk, h, ih]

/-- A write finds a file or makes one, and stores there what it makes of the old contents. -/
theorem write?_eq_some {change : ByteArray → ByteArray} (h : tree.write? path change = some tree') :
    ∃ place data, tree.locate path = some place ∧ place ≠ [] ∧ tree.at? place ≠ some .directory ∧
      tree' = tree.put place (.file data) ∧ (data.readOnly = true → tree.privileged = true) ∧
      data.contents = change ((tree.contents? place).getD ByteArray.empty) := by
  simp only [write?, Option.bind_eq_some_iff] at h
  obtain ⟨place, hplace, h⟩ := h
  have hroot (hnot : tree.at? place ≠ some .directory) : place ≠ [] := by
    rintro rfl
    exact hnot rfl
  split at h
  · cases h
  · rename_i data hat
    split at h
    · cases h
    · rename_i hwritable
      cases h
      have hnot : tree.at? place ≠ some .directory := by simp [hat]
      have hallowed : data.readOnly = true → tree.privileged = true := by simpa using hwritable
      exact ⟨place, _, hplace, hroot hnot, hnot, rfl, hallowed, by simp [contents?, hat]⟩
  · rename_i hat
    split at h
    · cases h
      have hnot : tree.at? place ≠ some .directory := by simp [hat]
      exact ⟨place, _, hplace, hroot hnot, hnot, rfl, by simp, by simp [contents?, hat]⟩
    · cases h

/-- A write makes and removes no directory, so every path leads where it did. -/
theorem locate_eq_of_write? {change : ByteArray → ByteArray} (h : tree.write? path change = some tree') :
    tree'.locate = tree.locate := by
  obtain ⟨place, data, -, -, hnot, rfl, -, -⟩ := write?_eq_some h
  have hsame (q : Location) : (tree.put place (.file data)).isDirectoryAt q = tree.isDirectoryAt q := by
    by_cases hq : q ≠ [] ∧ q = place
    · have htree : tree.isDirectoryAt q = false := by
        simp only [isDirectoryAt]
        split
        · rename_i hat
          exact absurd (hq.2 ▸ hat) hnot
        · rfl
      rw [htree]
      simp only [isDirectoryAt, at?_put, if_pos hq]
    · simp only [isDirectoryAt, at?_put, if_neg hq]
  funext other
  simp only [locate, walk_congr hsame]
  rfl

/-- A write changes the contents of the file that its path leads to, and of no other. -/
theorem contents?_of_write? {change : ByteArray → ByteArray} (h : tree.write? path change = some tree')
    (q : Location) :
    tree'.contents? q =
      if tree.locate path = some q then some (change ((tree.contents? q).getD ByteArray.empty))
      else tree.contents? q := by
  obtain ⟨place, data, hplace, hroot, -, rfl, -, hdata⟩ := write?_eq_some h
  by_cases hq : q = place
  · subst hq
    have hput : (tree.put q (.file data)).contents? q = some data.contents := by simp [contents?, at?_put, hroot]
    rw [hput, hdata, if_pos hplace]
  · have hne : ¬ place = q := fun heq => hq heq.symm
    simp [contents?, at?_put, hplace, hq, hne]

/-- A file stands at a location, and it may be written. -/
def Writable (tree : FileTree) (place : Location) : Prop :=
  ∃ data, tree.at? place = some (.file data) ∧ (data.readOnly = true → tree.privileged = true)

/-- What a write leaves may be written again. -/
theorem writable_of_write? {change : ByteArray → ByteArray} (h : tree.write? path change = some tree')
    (hplace : tree.locate path = some place) : tree'.Writable place := by
  obtain ⟨target, data, htarget, hroot, -, rfl, hallowed, -⟩ := write?_eq_some h
  obtain rfl : target = place := Option.some.inj (htarget.symm.trans hplace)
  exact ⟨data, by simp [at?_put, hroot], hallowed⟩

/-- A write takes nothing away from what may be written. -/
theorem Writable.write? {change : ByteArray → ByteArray} (hplace : tree.Writable place)
    (h : tree.write? path change = some tree') : tree'.Writable place := by
  by_cases hsame : tree.locate path = some place
  · exact writable_of_write? h hsame
  · obtain ⟨target, data, htarget, -, -, rfl, -, -⟩ := write?_eq_some h
    have hother : ¬ place = target := fun heq => hsame (heq ▸ htarget)
    obtain ⟨old, hat, hallowed⟩ := hplace
    exact ⟨old, by simpa [at?_put, hother] using hat, hallowed⟩

/-- Where a file may be written, a text can be added to it. -/
theorem Writable.exists_append? (h : tree.Writable place) (hplace : tree.locate path = some place)
    (text : String) : ∃ tree', tree.append? path text = some tree' := by
  obtain ⟨data, hat, hallowed⟩ := h
  have hopen : ¬ (data.readOnly && !tree.privileged) = true := by simpa using hallowed
  exact ⟨_, by rw [append?, FileTree.write?, hplace, Option.bind_some, hat]; exact if_neg hopen⟩

theorem Writable.exists_contents? (h : tree.Writable place) : ∃ old, tree.contents? place = some old := by
  obtain ⟨data, hat, -⟩ := h
  exact ⟨data.contents, by rw [contents?, hat]⟩

end FileTree

end BatchShell
