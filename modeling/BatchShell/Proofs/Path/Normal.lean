import BatchShell.FileTree
import Mathlib.Data.List.Basic

/-!
# Where a path leads

A path is walked component by component: `.` stays, `..` leaves the last directory and stays at the root, any other
component is a name to go down to (`walk`). All walks along a path are told by its `Route`: so many levels up, then down
by some names. Folding puts a `..` that has no name before it at the start, and the next such `..` takes it away again.
So a normal form has lost every two levels up, and has one left if their number is odd.

* `walk_eq`: where a path leads from any place.
* `components_normalize`: the components of the normal form, over all paths.
* `normalize_route`: what this means for the normal form, and for typed paths.
-/
namespace BatchShell.Path

/-! ## Components -/

/-- What stands between the slashes of a path. -/
def components (p : String) : List String := (Text.fields (· == '/') p.toList).map String.ofList

/-- A text that can be a component. -/
def IsComponent (c : String) : Prop := c ≠ "" ∧ '/' ∉ c.toList

variable {p : String} {ps : List String} {c : String}

theorem isComponent_of_mem (h : c ∈ components p) : IsComponent c := by
  obtain ⟨run, hrun, rfl⟩ := List.mem_map.mp h
  obtain ⟨hne, hinside⟩ := Text.mem_fields hrun
  refine ⟨by simpa using hne, fun hslash => ?_⟩
  rw [String.toList_ofList] at hslash
  exact absurd (hinside '/' hslash) (by decide)

theorem components_append_slash (p q : String) : components (p ++ "/" ++ q) = components p ++ components q := by
  have hchars : (p ++ "/" ++ q).toList = p.toList ++ '/' :: q.toList := by simp
  rw [components, hchars, Text.fields_append (by decide), List.map_append, components, components]

theorem components_self (h : IsComponent c) : components c = [c] := by
  have hinside : ∀ d ∈ c.toList, (d == '/') = false := by
    intro d hd
    rw [beq_eq_false_iff_ne]
    rintro rfl
    exact h.2 hd
  rw [components, Text.fields_run (by simpa using h.1) hinside, List.map_singleton, String.ofList_toList]

theorem components_intercalate (h : ∀ c ∈ ps, IsComponent c) : components ("/".intercalate ps) = ps := by
  induction ps with
  | nil => rfl
  | cons c ps ih =>
    obtain ⟨hc, hps⟩ := List.forall_mem_cons.mp h
    cases ps with
    | nil => rw [String.intercalate_singleton, components_self hc]
    | cons d ps => rw [String.intercalate_cons_cons, components_append_slash, components_self hc, ih hps]; rfl

theorem components_render (h : ∀ c ∈ ps, IsComponent c) (absolute : Bool) : components (render absolute ps) = ps := by
  cases absolute with
  | false => rw [render, if_neg Bool.false_ne_true, String.empty_append, components_intercalate h]
  | true =>
    have hroot : render true ps = "" ++ "/" ++ "/".intercalate ps := rfl
    rw [hroot, components_append_slash, components_intercalate h]
    rfl

theorem isAbsolute_append (p q : String) (h : p ≠ "") : isAbsolute (p ++ q) = isAbsolute p := by
  have hne : p.toList ≠ [] := by simpa using h
  rw [isAbsolute, String.toList_append, List.head?_append_of_ne_nil _ hne, isAbsolute]

theorem isAbsolute_of_isComponent (h : IsComponent c) : isAbsolute c = false := by
  rw [isAbsolute, beq_eq_false_iff_ne]
  exact fun hhead => h.2 (List.mem_of_head? hhead)

theorem isAbsolute_render (h : ∀ c ∈ ps, IsComponent c) (absolute : Bool) :
    isAbsolute (render absolute ps) = absolute := by
  cases absolute with
  | true => exact isAbsolute_append "/" _ (by decide)
  | false =>
    rw [render, if_neg Bool.false_ne_true, String.empty_append]
    cases ps with
    | nil => rfl
    | cons c ps =>
      obtain ⟨hc, -⟩ := List.forall_mem_cons.mp h
      cases ps with
      | nil => rw [String.intercalate_singleton, isAbsolute_of_isComponent hc]
      | cons d ps =>
        rw [String.intercalate_cons_cons, String.append_assoc, isAbsolute_append _ _ hc.1, isAbsolute_of_isComponent hc]

/-! ## Routes -/

/-- One component further from a place. -/
def step (place : Location) (part : String) : Location :=
  if part = "." then place
  else if part = ".." then place.dropLast
  else place ++ [part]

/-- Where components lead from a place. -/
def walk (place : Location) (ps : List String) : Location := ps.foldl step place

/-- Where a path leads from a place. -/
def location (place : Location) (p : String) : Location := walk (if isAbsolute p then [] else place) (components p)

/-- So many levels up, then down by names. -/
structure Route where
  ups : Nat
  names : List String
  deriving DecidableEq

namespace Route

/-- One level up. It leaves the last name, if there is one. -/
def up (r : Route) : Route := ⟨if r.names = [] then r.ups + 1 else r.ups, r.names.dropLast⟩

def step (r : Route) (part : String) : Route :=
  if part = "." then r
  else if part = ".." then r.up
  else ⟨r.ups, r.names ++ [part]⟩

/-- A route that is gone after another one. -/
def after (r first : Route) : Route :=
  ⟨first.ups + (r.ups - first.names.length), first.names.take (first.names.length - r.ups) ++ r.names⟩

@[simp]
theorem start_after (first : Route) : (⟨0, []⟩ : Route).after first = first := by simp [after]

theorem up_after (r first : Route) : (r.after first).up = r.up.after first := by
  -- Without a name of its own to leave, `r` leaves one of `first`, as long as there is one.
  by_cases hnames : r.names = []
  · have hempty : first.names.take (first.names.length - r.ups) = [] ↔ first.names.length ≤ r.ups := by
      rw [← List.length_eq_zero_iff, List.length_take]
      omega
    simp only [up, after, hnames, List.append_nil, List.dropLast_nil, if_true, hempty, mk.injEq]
    refine ⟨by split <;> omega, ?_⟩
    rw [List.dropLast_eq_take, List.length_take, List.take_take]
    congr 1
    omega
  · have hne : first.names.take (first.names.length - r.ups) ++ r.names ≠ [] :=
      List.append_ne_nil_of_right_ne_nil _ hnames
    simp only [up, after, hne, hnames, if_false, List.dropLast_append_of_ne_nil hnames]

theorem step_after (r first : Route) (part : String) : (r.after first).step part = (r.step part).after first := by
  unfold step
  split
  · rfl
  · split
    · exact up_after r first
    · simp only [after, List.append_assoc]

theorem foldl_step_after (r first : Route) (ps : List String) :
    ps.foldl step (r.after first) = (ps.foldl step r).after first := by
  induction ps generalizing r with
  | nil => rfl
  | cons part ps ih => rw [List.foldl_cons, step_after, ih, List.foldl_cons]

end Route

/-- The route along components. -/
def routeOf (ps : List String) : Route := ps.foldl Route.step ⟨0, []⟩

theorem foldl_step (first : Route) (ps : List String) : ps.foldl Route.step first = (routeOf ps).after first := by
  rw [routeOf, ← Route.foldl_step_after, Route.start_after]

theorem routeOf_append (ps qs : List String) : routeOf (ps ++ qs) = (routeOf qs).after (routeOf ps) := by
  rw [routeOf, List.foldl_append, foldl_step]
  rfl

/-- A walk goes to the names of the route that starts with the place. -/
theorem walk_eq_names (ups : Nat) (place : Location) (ps : List String) :
    walk place ps = (ps.foldl Route.step ⟨ups, place⟩).names := by
  induction ps generalizing ups place with
  | nil => rfl
  | cons part ps ih =>
    have hnames : (Route.step ⟨ups, place⟩ part).names = step place part := by
      unfold Route.step step
      split
      · rfl
      · split <;> rfl
    rw [walk, List.foldl_cons, List.foldl_cons, ← hnames, ← walk, ih]

/-- Walking is going up, to the root at most, and down from there. -/
theorem walk_eq (place : Location) (ps : List String) :
    walk place ps = place.take (place.length - (routeOf ps).ups) ++ (routeOf ps).names := by
  rw [walk_eq_names 0, foldl_step, Route.after]

/-- The route along a path. -/
def route (p : String) : Route := routeOf (components p)

theorem location_eq (place : Location) (p : String) : location place p =
    let start := if isAbsolute p then [] else place
    start.take (start.length - (route p).ups) ++ (route p).names :=
  walk_eq _ _

theorem foldl_step_names {r : Route} {name : String} (h : name ∈ (ps.foldl Route.step r).names) :
    name ∈ r.names ∨ name ∈ ps ∧ name ≠ "." ∧ name ≠ ".." := by
  induction ps generalizing r with
  | nil => exact Or.inl h
  | cons part ps ih =>
    obtain hname | ⟨hmem, hplain⟩ := ih h
    · unfold Route.step at hname
      split at hname
      · exact Or.inl hname
      · split at hname
        · exact Or.inl (List.dropLast_subset _ hname)
        · rename_i hdot hup
          obtain hname | hname := List.mem_append.mp hname
          · exact Or.inl hname
          · obtain rfl := List.mem_singleton.mp hname
            exact Or.inr ⟨List.mem_cons_self, hdot, hup⟩
    · exact Or.inr ⟨List.mem_cons_of_mem _ hmem, hplain⟩

/-- The names of a route are components of the path that are names. -/
theorem route_names {name : String} (h : name ∈ (route p).names) : IsComponent name ∧ name ≠ "." ∧ name ≠ ".." := by
  obtain hname | ⟨hmem, hplain⟩ := foldl_step_names h
  · cases hname
  · exact ⟨isComponent_of_mem hmem, hplain⟩

/-! ## Normal forms -/

/-- What folding leaves of a route. Two levels up take each other away. -/
def Route.folded (r : Route) : List String := List.replicate (r.ups % 2) ".." ++ r.names

theorem fold_folded (r : Route) {part : String} (h : part ≠ ".") :
    fold r.folded.reverse part = (r.step part).folded.reverse := by
  unfold fold Route.step
  rw [if_neg h]
  by_cases hup : part = ".."
  · rw [if_pos (beq_iff_eq.mpr hup), if_pos hup]
    obtain ⟨ups, names⟩ := r
    obtain rfl | ⟨names, name, rfl⟩ := List.eq_nil_or_concat' names
    · -- No name to take away: the stack is empty, or it is the `..` that is taken away.
      obtain heven | hodd := Nat.mod_two_eq_zero_or_one ups
      · have hnext : (ups + 1) % 2 = 1 := by omega
        simp [Route.folded, Route.up, heven, hnext]
      · have hnext : (ups + 1) % 2 = 0 := by omega
        simp [Route.folded, Route.up, hodd, hnext]
    · simp [Route.folded, Route.up]
  · rw [if_neg (by simpa using hup), if_neg hup]
    simp [Route.folded]

theorem foldl_fold (r : Route) (ps : List String) :
    (ps.filter (· != ".")).foldl fold r.folded.reverse = (ps.foldl Route.step r).folded.reverse := by
  induction ps generalizing r with
  | nil => rfl
  | cons part ps ih =>
    by_cases hdot : part = "."
    · have hstay : r.step part = r := by rw [Route.step, if_pos hdot]
      rw [List.filter_cons_of_neg (by simpa using hdot), List.foldl_cons, hstay, ih]
    · rw [List.filter_cons_of_pos (by simpa using hdot), List.foldl_cons, List.foldl_cons, fold_folded r hdot, ih]

theorem normalize_eq (p : String) : normalize p =
    if isAbsolute p = false ∧ (route p).folded = [] then "." else render (isAbsolute p) (route p).folded := by
  have hfold : ((parts p).foldl fold []).reverse = (route p).folded := by
    have hrun := foldl_fold ⟨0, []⟩ (components p)
    exact (congrArg List.reverse hrun).trans (List.reverse_reverse _)
  rw [normalize, hfold]
  congr 1
  simp

theorem isComponent_folded : ∀ c ∈ (route p).folded, IsComponent c := by
  intro c hc
  obtain hup | hname := List.mem_append.mp hc
  · obtain rfl := List.eq_of_mem_replicate hup
    exact ⟨by decide, by decide⟩
  · exact (route_names hname).1

/-- **The components of a normal form.** -/
theorem components_normalize (p : String) : components (normalize p) =
    if isAbsolute p = false ∧ (route p).folded = [] then ["."] else (route p).folded := by
  rw [normalize_eq]
  split
  · decide
  · exact components_render isComponent_folded _

theorem isAbsolute_normalize (p : String) : isAbsolute (normalize p) = isAbsolute p := by
  rw [normalize_eq]
  split
  · rename_i h
    rw [h.1]
    decide
  · exact isAbsolute_render isComponent_folded _

theorem routeOf_names {names : List String} (h : ∀ name ∈ names, name ≠ "." ∧ name ≠ "..") :
    routeOf names = ⟨0, names⟩ := by
  induction names with
  | nil => rfl
  | cons name names ih =>
    obtain ⟨⟨hdot, hup⟩, hnames⟩ := List.forall_mem_cons.mp h
    have hfirst : routeOf [name] = ⟨0, [name]⟩ := by simp [routeOf, Route.step, hdot, hup]
    rw [← List.singleton_append, routeOf_append, ih hnames, hfirst]
    rfl

/-- The normal form goes the same way, but for two levels up. -/
theorem route_normalize (p : String) : route (normalize p) = ⟨(route p).ups % 2, (route p).names⟩ := by
  rw [route, components_normalize]
  split
  · rename_i h
    obtain ⟨hups, hnames⟩ := List.append_eq_nil_iff.mp h.2
    rw [(List.replicate_eq_nil_iff _).mp hups, hnames]
    decide
  · have hups : routeOf (List.replicate ((route p).ups % 2) "..") = ⟨(route p).ups % 2, []⟩ := by
      obtain heven | hodd := Nat.mod_two_eq_zero_or_one (route p).ups
      · rw [heven]
        rfl
      · rw [hodd]
        rfl
    rw [Route.folded, routeOf_append, hups, routeOf_names fun name hname => (route_names hname).2]
    rfl

theorem normalize_normalize (p : String) : normalize (normalize p) = normalize p := by
  have hfolded : (route (normalize p)).folded = (route p).folded := by
    rw [route_normalize, Route.folded, Route.folded, Nat.mod_mod]
  rw [normalize_eq (normalize p), isAbsolute_normalize, hfolded, ← normalize_eq]

/-- The walk along a normal form ends where the walk along the path ends, unless two levels up were left out that the
place has. -/
theorem location_normalize_iff (place : Location) (p : String) : location place (normalize p) = location place p ↔
    isAbsolute p = true ∨ min (route p).ups place.length = min ((route p).ups % 2) place.length := by
  rw [location_eq, location_eq, isAbsolute_normalize, route_normalize]
  cases isAbsolute p with
  | true => simp
  | false =>
    simp only [Bool.false_eq_true, if_false, false_or]
    rw [List.append_left_inj, List.take_eq_take_iff]
    omega

/-- Paths whose normal form leads to the same place from everywhere. -/
theorem location_normalize_all_iff (p : String) :
    (∀ place, location place (normalize p) = location place p) ↔ isAbsolute p = true ∨ (route p).ups ≤ 1 := by
  simp only [location_normalize_iff]
  constructor
  · intro h
    have hsame := h (List.replicate (route p).ups "")
    rw [List.length_replicate] at hsame
    exact hsame.imp_right fun hsame => by omega
  · rintro (habsolute | hups) place
    · exact Or.inl habsolute
    · exact Or.inr (by rw [Nat.mod_eq_of_lt (by omega)])

/-- A `.` is left only where nothing else is. -/
theorem normalize_eq_dot (h : "." ∈ components (normalize p)) : isAbsolute p = false ∧ normalize p = "." := by
  rw [components_normalize] at h
  split at h
  · rename_i hnone
    exact ⟨hnone.1, by rw [normalize_eq, if_pos hnone]⟩
  · obtain hup | hname := List.mem_append.mp h
    · exact absurd (List.eq_of_mem_replicate hup) (by decide)
    · exact absurd rfl (route_names hname).2.1

/-- At most one `..` is left, at the start. -/
theorem components_normalize_split (p : String) :
    ∃ names, components (normalize p) = List.replicate ((route p).ups % 2) ".." ++ names ∧ ".." ∉ names := by
  rw [components_normalize]
  split
  · rename_i h
    obtain ⟨hups, -⟩ := List.append_eq_nil_iff.mp h.2
    exact ⟨["."], by rw [hups]; rfl, by decide⟩
  · exact ⟨(route p).names, rfl, fun hmem => (route_names hmem).2.2 rfl⟩

theorem dotdot_not_mem_iff (p : String) : ".." ∉ components (normalize p) ↔ (route p).ups % 2 = 0 := by
  obtain ⟨names, hsplit, hnames⟩ := components_normalize_split p
  rw [hsplit, List.mem_append, List.mem_replicate]
  simp only [hnames, or_false, and_true]
  omega

/-! ## Typed paths -/

/-- A path as it is typed, perhaps quoted and with backslashes. -/
def typed (p : String) : String := Text.replaceChar '\\' '/' (dequote p)

theorem resolve_eq (cwd p : String) : resolve cwd p = normalize (join cwd (typed p)) := rfl

theorem components_join {p : String} (base : String) (h : isAbsolute p = false) :
    components (join base p) = components base ++ components p := by
  have hempty : components "" = [] := rfl
  rw [join, if_neg (by simp [h])]
  split
  · rename_i hbase
    obtain hbase | hbase := Bool.or_eq_true_iff.mp hbase
    · rw [String.isEmpty_iff.mp hbase, String.empty_append, hempty, List.nil_append]
    · obtain ⟨cs, hcs⟩ := List.getLast?_eq_some_iff.mp (beq_iff_eq.mp hbase)
      have hslash : base = String.ofList cs ++ "/" := String.toList_inj.mp (by simp [hcs])
      have hnone := components_append_slash (String.ofList cs) ""
      rw [String.append_empty, hempty, List.append_nil] at hnone
      rw [hslash, components_append_slash, hnone]
  · rw [components_append_slash]

theorem isAbsolute_join {base : String} (h : isAbsolute base = true) (p : String) :
    isAbsolute (join base p) = true := by
  have hne : base ≠ "" := by
    rintro rfl
    exact absurd h (by decide)
  unfold join
  split
  · rename_i hp
    exact hp
  · split
    · rw [isAbsolute_append _ _ hne, h]
    · rw [String.append_assoc, isAbsolute_append _ _ hne, h]

/-- A path that is seen from a directory leads where the path leads from the place of the directory. -/
theorem location_join (place : Location) {base : String} (h : isAbsolute base = true) (p : String) :
    location place (join base p) = location (location place base) p := by
  cases hp : isAbsolute p with
  | true =>
    have hself : join base p = p := by rw [join, if_pos hp]
    rw [hself, location, location, hp, if_pos rfl, if_pos rfl]
  | false =>
    have hwalk : walk [] (components (join base p)) = walk (walk [] (components base)) (components p) := by
      rw [components_join base hp]
      exact List.foldl_append
    rw [location, location, location, isAbsolute_join h, hp, h]
    exact hwalk

/-- From an absolute directory, a relative path is gone after the route to the directory. -/
theorem route_join {p : String} (base : String) (h : isAbsolute p = false) :
    route (join base p) = (route p).after (route base) := by
  rw [route, components_join base h, routeOf_append, route, route]

/-- A typed path is resolved to where it leads from the directory, whatever its route. -/
theorem location_resolve (place : Location) {cwd : String} (h : isAbsolute cwd = true) (p : String) :
    location place (resolve cwd p) = location (location place cwd) (typed p) := by
  rw [resolve_eq, (location_normalize_iff place _).mpr (Or.inl (isAbsolute_join h _)), location_join place h]

/-- A walk in a file tree leads where the components lead. -/
theorem walk_of_fileTree {tree : FileTree} {place found : Location} (ps : List String)
    (h : tree.walk place (ps.filter (· != ".")) = some found) : walk place ps = found := by
  induction ps generalizing place with
  | nil => exact Option.some.inj h
  | cons part ps ih =>
    by_cases hdot : part = "."
    · have hstay : step place part = place := by rw [step, if_pos hdot]
      rw [List.filter_cons_of_neg (by simpa using hdot)] at h
      rw [walk, List.foldl_cons, hstay, ← walk, ih h]
    · rw [List.filter_cons_of_pos (by simpa using hdot), FileTree.walk] at h
      split at h
      · have hstep : step place part = if part == ".." then place.dropLast else place ++ [part] := by
          simp [step, hdot]
        rw [walk, List.foldl_cons, hstep, ← walk, ih h]
      · cases h

/-- What stands at a typed path in a file tree stands where the walk along it ends. -/
theorem locate_resolve {tree : FileTree} {cwd p : String} {found : Location} (h : isAbsolute cwd = true)
    (hfound : tree.locate (resolve cwd p) = some found) : found = location (location [] cwd) (typed p) := by
  have habsolute : isAbsolute (resolve cwd p) = true := by rw [resolve_eq, isAbsolute_normalize, isAbsolute_join h]
  unfold FileTree.locate at hfound
  rw [if_pos habsolute] at hfound
  split at hfound
  · cases hfound
  · rw [← location_resolve [] h, location, if_pos habsolute]
    exact (walk_of_fileTree _ hfound).symm

/-- **Where the normal form leads.** Normalizing a second time changes nothing. No `.` is left but for a path that is
nothing else, and at most one `..`, at the start. An absolute path keeps its place, and is rid of `..` exactly if it
leaves the root an even number of times. A relative path keeps its place from everywhere exactly if it goes no more than
one level up. A typed path is resolved to its place in an absolute directory, without `..` if it does not leave the
root, and what a file tree has at the resolved path is at that place. -/
theorem normalize_route (p : String) :
    normalize (normalize p) = normalize p ∧ isAbsolute (normalize p) = isAbsolute p ∧
    ("." ∈ components (normalize p) → normalize p = ".") ∧
    (∃ names, components (normalize p) = List.replicate ((route p).ups % 2) ".." ++ names ∧ ".." ∉ names) ∧
    (".." ∉ components (normalize p) ↔ (route p).ups % 2 = 0) ∧
    (∀ place, location place (normalize p) = location place p ↔
      isAbsolute p = true ∨ min (route p).ups place.length = min ((route p).ups % 2) place.length) ∧
    ((∀ place, location place (normalize p) = location place p) ↔ isAbsolute p = true ∨ (route p).ups ≤ 1) ∧
    ∀ cwd, isAbsolute cwd = true →
      isAbsolute (resolve cwd p) = true ∧ "." ∉ components (resolve cwd p) ∧
      (".." ∉ components (resolve cwd p) ↔ (route (join cwd (typed p))).ups % 2 = 0) ∧
      (isAbsolute (typed p) = false → (route cwd).ups = 0 → (route (typed p)).ups ≤ (route cwd).names.length →
        ".." ∉ components (resolve cwd p)) ∧
      (∀ place, location place (resolve cwd p) = location (location place cwd) (typed p)) ∧
      ∀ (tree : FileTree) (found : Location), tree.locate (resolve cwd p) = some found →
        found = location (location [] cwd) (typed p) := by
  refine ⟨normalize_normalize p, isAbsolute_normalize p, fun h => (normalize_eq_dot h).2, components_normalize_split p,
    dotdot_not_mem_iff p, fun place => location_normalize_iff place p, location_normalize_all_iff p, fun cwd hcwd => ?_⟩
  have habsolute : isAbsolute (join cwd (typed p)) = true := isAbsolute_join hcwd _
  refine ⟨?_, fun h => ?_, dotdot_not_mem_iff _, fun hp hups hfew => ?_, fun place => location_resolve place hcwd p,
    fun tree found => locate_resolve hcwd⟩
  · rw [resolve_eq, isAbsolute_normalize, habsolute]
  · have hrelative : isAbsolute (join cwd (typed p)) = false := (normalize_eq_dot h).1
    rw [habsolute] at hrelative
    cases hrelative
  · have hnone : (route (join cwd (typed p))).ups = 0 := by
      rw [route_join cwd hp, Route.after, hups, Nat.sub_eq_zero_of_le hfew]
    rw [resolve_eq, dotdot_not_mem_iff, hnone]

/-- A path out of its directory and one from a directory two levels below the root keep their places. -/
theorem normalize_route_parent :
    (∀ place, location place (normalize "a/./../../b") = location place "a/./../../b") ∧
      ".." ∉ components (resolve "/home/user" "..\\..\\x") ∧
      ∀ place, location place (resolve "/home/user" "..\\..\\x") = ["x"] := by
  obtain ⟨-, -, -, -, -, -, hplace, -⟩ := normalize_route "a/./../../b"
  obtain ⟨-, -, -, -, -, -, -, hresolve⟩ := normalize_route "..\\..\\x"
  obtain ⟨-, -, -, hup, hwalk, -⟩ := hresolve "/home/user" (by decide)
  have htyped : typed "..\\..\\x" = "../../x" := by decide +kernel
  have hroute : route "/home/user" = ⟨0, ["home", "user"]⟩ ∧ route "../../x" = ⟨2, ["x"]⟩ := by decide +kernel
  rw [htyped, hroute.1, hroute.2] at hup
  refine ⟨hplace.mpr (Or.inr (by decide +kernel)), hup (by decide) rfl (by decide), fun place => ?_⟩
  rw [hwalk, htyped, location_eq, location_eq, hroute.1, hroute.2]
  rfl

/-- Two levels up are none, and a level up from the root stays in the path. -/
theorem two_ups_fold :
    normalize "../.." = "." ∧ location ["a", "b"] "../.." = [] ∧ location ["a", "b"] "." = ["a", "b"] ∧
      normalize "/a/../.." = "/.." ∧ resolve "/" ".." = "/.." ∧ isAbsolute "/.." = true ∧
      ".." ∈ components "/.." := by
  decide +kernel

end BatchShell.Path
