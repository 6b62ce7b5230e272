import Mathlib.Data.List.Forall2
import BatchShell.Environment

/-!
# What the frames of an environment say together

A frame is a list of changes by upper-case name. It is in order (`Frame.Keyed`) if no name has two changes
and every variable stands under its own name; assignments and deletions keep it so. Then a look-up finds the
one change of a name (`Frame.find?_eq_some_iff`), in whatever order the changes stand.

* `Environment.find?_merged`: merging the frames from the outside in finds what a look-up from the inside out
  finds.
* `Environment.lists_listed`: the sorted list of a merged frame has each visible variable once, in the strict
  order of the upper-case names. Such a list is unique (`Lists.unique`), so the order of the changes in the
  frames plays no part (`Environment.listed_rearranged`).
-/
namespace BatchShell

open Text

namespace Frame

variable {f g : Frame} {key name : String} {entry : Option Variable}

/-! ## One frame -/

@[simp] theorem find?_nil : find? [] key = none := rfl

@[simp] theorem find?_cons (k : String) (e : Option Variable) (f : Frame) :
    find? ((k, e) :: f) key = if key = k then some e else f.find? key := by
  by_cases h : key = k
  · subst h
    rw [find?, List.lookup_cons_self, if_pos rfl]
  · rw [find?, List.lookup_cons, beq_eq_false_iff_ne.mpr h, if_neg h]
    rfl

theorem find?_insert (f : Frame) :
    (insert key entry f).find? name = if name = key then some entry else f.find? name := by
  induction f with
  | nil => simp [insert]
  | cons head f ih =>
    obtain ⟨k, e⟩ := head
    by_cases hk : k = key
    · subst hk
      by_cases hname : name = k <;> simp [insert, hname]
    · simp only [insert, beq_eq_false_iff_ne.mpr hk, Bool.false_eq_true, if_false, find?_cons, ih]
      by_cases hname : name = k
      · subst hname
        simp [hk]
      · simp [hname]

theorem find?_erase (f : Frame) :
    (f.erase key).find? name = if name = key then none else f.find? name := by
  induction f with
  | nil => simp [erase]
  | cons head f ih =>
    obtain ⟨k, e⟩ := head
    by_cases hk : k = key
    · subst hk
      have hskip : erase k ((k, e) :: f) = erase k f := by simp [erase]
      rw [hskip, ih, find?_cons]
      by_cases hname : name = k <;> simp [hname]
    · have hkeep : erase key ((k, e) :: f) = (k, e) :: erase key f := by simp [erase, hk]
      rw [hkeep, find?_cons, ih, find?_cons]
      by_cases hname : name = k
      · subst hname
        simp [hk]
      · simp [hname]

/-- No name has two changes, and a variable stands under its own upper-case name. -/
structure Keyed (f : Frame) : Prop where
  nodup : (f.map Prod.fst).Nodup
  named : ∀ k v, (k, some v) ∈ f → upper v.name = k

/-- Where no name has two changes, a look-up finds the change that is there. -/
theorem find?_eq_some_iff (h : (f.map Prod.fst).Nodup) : f.find? key = some entry ↔ (key, entry) ∈ f := by
  induction f with
  | nil => simp
  | cons head f ih =>
    obtain ⟨k, e⟩ := head
    simp only [List.map_cons, List.nodup_cons] at h
    rw [find?_cons, List.mem_cons, Prod.mk.injEq]
    by_cases hk : key = k
    · subst hk
      have hnot : (key, entry) ∉ f := fun hmem => h.1 (List.mem_map_of_mem hmem)
      simp [hnot, eq_comm]
    · simp [hk, ih h.2]

theorem mem_insert {p : String × Option Variable} (h : p ∈ insert key entry f) :
    p = (key, entry) ∨ p ∈ f := by
  induction f with
  | nil => exact .inl (List.mem_singleton.mp h)
  | cons head f ih =>
    rw [insert] at h
    split at h
    · rcases List.mem_cons.mp h with rfl | hmem
      · exact .inl rfl
      · exact .inr (List.mem_cons_of_mem _ hmem)
    · rcases List.mem_cons.mp h with rfl | hmem
      · exact .inr List.mem_cons_self
      · exact (ih hmem).imp_right (List.mem_cons_of_mem _)

namespace Keyed

theorem nil : Keyed [] := ⟨List.nodup_nil, fun _ _ h => absurd h List.not_mem_nil⟩

theorem of_mem (h : Keyed f) (hsub : ∀ p ∈ g, p ∈ f) (hnodup : (g.map Prod.fst).Nodup) : Keyed g :=
  ⟨hnodup, fun k v hmem => h.named k v (hsub _ hmem)⟩

theorem erase (h : Keyed f) (key : String) : Keyed (f.erase key) :=
  h.of_mem (fun _ hmem => (List.mem_filter.mp hmem).1)
    (h.nodup.sublist (List.Sublist.map _ List.filter_sublist))

theorem perm (h : Keyed f) (hperm : f.Perm g) : Keyed g :=
  h.of_mem (fun _ hmem => hperm.mem_iff.mpr hmem) ((hperm.map _).nodup_iff.mp h.nodup)

theorem insert (h : Keyed f) (hnew : ∀ v, entry = some v → upper v.name = key) :
    Keyed (insert key entry f) := by
  refine ⟨?_, fun k v hmem => ?_⟩
  · obtain ⟨hnodup, -⟩ := h
    induction f with
    | nil => simp [Frame.insert]
    | cons head f ih =>
      obtain ⟨k, e⟩ := head
      simp only [List.map_cons, List.nodup_cons] at hnodup
      rw [Frame.insert]
      split
      · rename_i hk
        rw [beq_iff_eq.mp hk] at hnodup
        simpa using hnodup
      · rename_i hk
        simp only [List.map_cons, List.nodup_cons]
        refine ⟨fun hmem => ?_, ih hnodup.2⟩
        obtain ⟨p, hp, hkey⟩ := List.mem_map.mp hmem
        rcases mem_insert hp with rfl | hold
        · exact hk (beq_iff_eq.mpr hkey.symm)
        · exact hnodup.1 (List.mem_map.mpr ⟨p, hold, hkey⟩)
  · rcases mem_insert hmem with heq | hold
    · obtain ⟨rfl, rfl⟩ := Prod.mk.inj heq
      exact hnew v rfl
    · exact h.named k v hold

end Keyed

/-! ## One frame over another -/

/-- Record all changes of a frame over those of another. -/
def atop (f below : Frame) : Frame := f.foldl (fun acc (k, e) => acc.insert k e) below

theorem find?_atop (h : (f.map Prod.fst).Nodup) (below : Frame) :
    (f.atop below).find? key = (f.find? key).or (below.find? key) := by
  induction f generalizing below with
  | nil => rfl
  | cons head f ih =>
    obtain ⟨k, e⟩ := head
    simp only [List.map_cons, List.nodup_cons] at h
    have hrest : atop ((k, e) :: f) below = atop f (insert k e below) := rfl
    rw [hrest, ih h.2, find?_insert, find?_cons]
    by_cases hk : key = k
    · subst hk
      have hnone : find? f key = none := by
        rcases hfind : find? f key with _ | found
        · rfl
        · exact absurd (List.mem_map_of_mem ((find?_eq_some_iff h.2).mp hfind)) h.1
      simp [hnone]
    · simp [hk]

theorem Keyed.atop (h : Keyed f) {below : Frame} (hbelow : Keyed below) : Keyed (f.atop below) := by
  induction f generalizing below with
  | nil => exact hbelow
  | cons head f ih =>
    obtain ⟨k, e⟩ := head
    have htail : Keyed f := h.of_mem (fun _ hmem => List.mem_cons_of_mem _ hmem) (List.nodup_cons.mp h.nodup).2
    refine ih htail (hbelow.insert fun v hv => ?_)
    subst hv
    exact h.named k v List.mem_cons_self

end Frame

/-! ## Listings -/

/-- The variables of a map by upper-case name, each once, in the strict order of these names. -/
structure Lists (map : String → Option Variable) (vars : List Variable) : Prop where
  sorted : vars.Pairwise fun a b => upper a.name < upper b.name
  mem_iff : ∀ v, v ∈ vars ↔ map (upper v.name) = some v

namespace Lists

variable {map : String → Option Variable} {vars vars' : List Variable}

/-- There is one such list. -/
theorem unique (h : Lists map vars) (h' : Lists map vars') : vars = vars' := by
  have hirrefl : ∀ {a b : Variable}, upper a.name < upper b.name → a ≠ b := by
    rintro a b hlt rfl
    exact String.lt_irrefl _ hlt
  have hperm : vars.Perm vars' := by
    rw [List.perm_ext_iff_of_nodup (h.sorted.imp hirrefl) (h'.sorted.imp hirrefl)]
    intro v
    rw [h.mem_iff, h'.mem_iff]
  refine hperm.eq_of_pairwise (fun a b _ _ hab hba => ?_) h.sorted h'.sorted
  exact absurd hba (String.lt_asymm hab)

/-- The part of a listing whose names have a property. -/
theorem filter (h : Lists map vars) (p : String → Bool) :
    Lists (fun key => if p key then map key else none) (vars.filter fun v => p (upper v.name)) := by
  refine ⟨h.sorted.filter _, fun v => ?_⟩
  rw [List.mem_filter, h.mem_iff]
  by_cases hp : p (upper v.name) <;> simp [hp]

end Lists

namespace Environment

/-- The variables of a frame, sorted. -/
def listed (entries : Frame) : List Variable :=
  (entries.filterMap (·.2)).mergeSort fun a b => decide (upper a.name ≤ upper b.name)

theorem lists_listed {entries : Frame} (h : entries.Keyed) :
    Lists (fun key => (entries.find? key).join) (listed entries) := by
  have hmem : ∀ v, v ∈ listed entries ↔ (upper v.name, some v) ∈ entries := by
    intro v
    unfold listed
    rw [(List.mergeSort_perm _ _).mem_iff, List.mem_filterMap]
    constructor
    · rintro ⟨⟨k, e⟩, hp, rfl⟩
      rwa [h.named k v hp]
    · exact fun hp => ⟨_, hp, rfl⟩
  refine ⟨?_, fun v => ?_⟩
  · -- sorted by `≤`, and no two variables have the same upper-case name
    have hle : (listed entries).Pairwise fun a b => decide (upper a.name ≤ upper b.name) = true :=
      List.pairwise_mergeSort (by simpa using fun _ _ _ => String.le_trans)
        (by simpa using fun _ _ => String.le_total _ _) (entries.filterMap (·.2))
    have hne : (listed entries).Pairwise fun a b => upper a.name ≠ upper b.name := by
      refine (List.mergeSort_perm _ _).symm.pairwise ?_ fun hne => hne.symm
      rw [List.pairwise_filterMap]
      have hkeys := List.pairwise_map.mp h.nodup
      refine hkeys.imp_of_mem fun {p q} hp hq hpq a ha b hb => ?_
      rw [h.named p.1 a (ha ▸ hp), h.named q.1 b (hb ▸ hq)]
      exact hpq
    refine (hle.and hne).imp fun {a b} hab => ?_
    have hle' : upper a.name ≤ upper b.name := by simpa using hab.1
    exact String.not_le.mp fun hge => hab.2 (String.le_antisymm hle' hge)
  · rw [hmem, ← Frame.find?_eq_some_iff h.nodup, Option.join_eq_some_iff]

/-! ## All frames -/

variable {env env' : Environment}

/-- Every frame is in order. -/
def Keyed (env : Environment) : Prop := ∀ f ∈ env.frames, f.Keyed

/-- What the frames, innermost first, say about a name. -/
def resolve (frames : List Frame) (key : String) : Option Variable := (lookup key frames).join

theorem get?_eq_resolve (env : Environment) (name : String) :
    env.get? name = (resolve env.frames (upper name)).map (·.value) := rfl

theorem lookup_cons (key : String) (f : Frame) (fs : List Frame) :
    lookup key (f :: fs) = (f.find? key).or (lookup key fs) := by
  rw [lookup]
  cases f.find? key <;> rfl

theorem lookup_eq_some_iff {key : String} {frames : List Frame} {entry : Option Variable} :
    lookup key frames = some entry ↔ ∃ inner frame outer, frames = inner ++ frame :: outer ∧
      (∀ f ∈ inner, f.find? key = none) ∧ frame.find? key = some entry := by
  induction frames with
  | nil => simp [lookup]
  | cons f fs ih =>
    rw [lookup_cons, Option.or_eq_some_iff, ih]
    constructor
    · rintro (hf | ⟨hf, inner, frame, outer, rfl, hinner, hframe⟩)
      · exact ⟨[], f, fs, rfl, by simp, hf⟩
      · exact ⟨f :: inner, frame, outer, rfl, List.forall_mem_cons.mpr ⟨hf, hinner⟩, hframe⟩
    · rintro ⟨inner, frame, outer, heq, hinner, hframe⟩
      cases inner with
      | nil =>
        cases heq
        exact .inl hframe
      | cons g inner =>
        cases heq
        obtain ⟨hg, hinner⟩ := List.forall_mem_cons.mp hinner
        exact .inr ⟨hg, inner, frame, outer, rfl, hinner, hframe⟩

/-- The innermost frame that says something of a name, however far out it is, gives the name this value. -/
def Defines (env : Environment) (name value : String) : Prop :=
  ∃ inner frame outer spelling, env.frames = inner ++ frame :: outer ∧
    (∀ f ∈ inner, f.find? (upper name) = none) ∧ frame.find? (upper name) = some (some ⟨spelling, value⟩)

theorem get?_eq_some_iff {env : Environment} {name value : String} :
    env.get? name = some value ↔ env.Defines name value := by
  rw [get?, Option.map_eq_some_iff]
  constructor
  · rintro ⟨⟨spelling, _⟩, hlookup, rfl⟩
    rw [Option.join_eq_some_iff, lookup_eq_some_iff] at hlookup
    obtain ⟨inner, frame, outer, heq, hinner, hframe⟩ := hlookup
    exact ⟨inner, frame, outer, spelling, heq, hinner, hframe⟩
  · rintro ⟨inner, frame, outer, spelling, heq, hinner, hframe⟩
    refine ⟨⟨spelling, value⟩, ?_, rfl⟩
    rw [Option.join_eq_some_iff, lookup_eq_some_iff]
    exact ⟨inner, frame, outer, heq, hinner, hframe⟩

/-- Merging the frames from the outside in gives an entry to the names that a look-up from the inside out
finds. -/
theorem find?_merged (h : env.Keyed) (key : String) : env.merged.find? key = lookup key env.frames := by
  obtain ⟨scopes, base⟩ := env
  unfold Environment.Keyed frames at h
  simp only [merged, frames] at h ⊢
  induction scopes with
  | nil => simp [lookup_cons, lookup]
  | cons f fs ih =>
    have hf : f.Keyed := h f List.mem_cons_self
    rw [List.foldr_cons, List.cons_append, lookup_cons, ← ih fun g hg => h g (List.mem_cons_of_mem _ hg)]
    exact Frame.find?_atop hf.nodup _

theorem keyed_merged (h : env.Keyed) : env.merged.Keyed := by
  obtain ⟨scopes, base⟩ := env
  unfold Environment.Keyed frames at h
  simp only [merged] at h ⊢
  induction scopes with
  | nil => exact h base List.mem_cons_self
  | cons f fs ih =>
    have hf : f.Keyed := h f List.mem_cons_self
    exact hf.atop (ih fun g hg => h g (List.mem_cons_of_mem _ hg))

/-- What is listed is what can be looked up. -/
theorem lists_visible (h : env.Keyed) : Lists (resolve env.frames) env.visible := by
  have hlist := lists_listed (keyed_merged h)
  simp only [find?_merged h] at hlist
  exact hlist

theorem lists_withPrefix (h : env.Keyed) (start : String) :
    Lists (fun key => if (upper start).toList.isPrefixOf key.toList then resolve env.frames key else none)
      (env.withPrefix start) :=
  (lists_visible h).filter fun key => (upper start).toList.isPrefixOf key.toList

/-! ## The order of the changes -/

/-- The same changes, frame by frame, in whatever order. -/
def Rearranged (env env' : Environment) : Prop := List.Forall₂ List.Perm env.frames env'.frames

theorem Keyed.rearranged (h : env.Keyed) (hr : Rearranged env env') : env'.Keyed := by
  unfold Environment.Keyed Rearranged at *
  generalize env.frames = frames at *
  generalize env'.frames = frames' at *
  induction hr with
  | nil => exact h
  | cons hperm _ ih =>
    intro g hg
    rcases List.mem_cons.mp hg with rfl | hg
    · exact (h _ List.mem_cons_self).perm hperm
    · exact ih (fun f hf => h f (List.mem_cons_of_mem _ hf)) g hg

theorem lookup_rearranged (h : env.Keyed) (hr : Rearranged env env') (key : String) :
    lookup key env'.frames = lookup key env.frames := by
  unfold Environment.Keyed Rearranged at *
  generalize env.frames = frames at *
  generalize env'.frames = frames' at *
  induction hr with
  | nil => rfl
  | @cons f g fs gs hperm _ ih =>
    have hf : f.Keyed := h f List.mem_cons_self
    have hfind : g.find? key = f.find? key := by
      refine Option.ext fun entry => ?_
      rw [Frame.find?_eq_some_iff (hf.perm hperm).nodup, Frame.find?_eq_some_iff hf.nodup, hperm.mem_iff]
    rw [lookup_cons, lookup_cons, hfind, ih fun f hf => h f (List.mem_cons_of_mem _ hf)]

/-- In whatever order the frames hold their changes, and in whatever order the merged changes come out, the
sorted list is the same. -/
theorem listed_rearranged (h : env.Keyed) (hr : Rearranged env env') {entries : Frame}
    (hperm : entries.Perm env'.merged) : listed entries = env.visible := by
  have hkeyed' := h.rearranged hr
  have hentries := (keyed_merged hkeyed').perm hperm.symm
  refine (lists_listed hentries).unique ?_
  have hmap : (fun key => (entries.find? key).join) = resolve env.frames := by
    funext key
    have hfind : entries.find? key = env'.merged.find? key := by
      refine Option.ext fun entry => ?_
      rw [Frame.find?_eq_some_iff hentries.nodup, Frame.find?_eq_some_iff (keyed_merged hkeyed').nodup,
        hperm.mem_iff]
    rw [hfind, find?_merged hkeyed', lookup_rearranged h hr]
    rfl
  rw [hmap]
  exact lists_visible h

end Environment

end BatchShell
