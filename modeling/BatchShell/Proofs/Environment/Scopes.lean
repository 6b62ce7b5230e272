import BatchShell.Environment

/-!
# What stays of an environment when its inner frames change

Assignments and deletions touch the innermost frame only (`SameBelow`). Opening and closing scopes above a
floor leaves the frames under that floor alone (`KeepsFloor`); closing them again down to the depth of the
start gives back everything but the innermost frame (`KeepsFloor.truncateScopes`).
-/
namespace BatchShell.Environment

variable {env env' env'' : Environment} {floor : Nat}

/-- As many open scopes, and the same frames below the innermost one. -/
structure SameBelow (env env' : Environment) : Prop where
  depth : env'.depth = env.depth
  below : env'.frames.tail = env.frames.tail

namespace SameBelow

theorem refl (env : Environment) : SameBelow env env := ⟨rfl, rfl⟩

theorem trans (h : SameBelow env env') (h' : SameBelow env' env'') : SameBelow env env'' :=
  ⟨h'.depth.trans h.depth, h'.below.trans h.below⟩

theorem modifyInner (env : Environment) (change : Frame → Frame) :
    SameBelow env (env.modifyInner change) := by
  obtain ⟨scopes, base⟩ := env
  cases scopes with
  | nil => exact ⟨rfl, rfl⟩
  | cons f fs => exact ⟨rfl, rfl⟩

theorem set (env : Environment) (name value : String) : SameBelow env (env.set name value) :=
  modifyInner env _

theorem unset (env : Environment) (name : String) : SameBelow env (env.unset name) := by
  unfold Environment.unset
  split
  · exact modifyInner env _
  · exact modifyInner env _

end SameBelow

/-- The `n` outermost frames. -/
def outermost (env : Environment) (n : Nat) : List Frame := env.frames.drop (env.depth + 1 - n)

/-- At least `floor` scopes stay open, and the frames below the scope with that number are the same. -/
structure KeepsFloor (floor : Nat) (env env' : Environment) : Prop where
  le_depth : floor ≤ env'.depth
  outermost_eq : env'.outermost floor = env.outermost floor

namespace KeepsFloor

theorem refl (h : floor ≤ env.depth) : KeepsFloor floor env env := ⟨h, rfl⟩

theorem trans (h : KeepsFloor floor env env') (h' : KeepsFloor floor env' env'') :
    KeepsFloor floor env env'' :=
  ⟨h'.le_depth, h'.outermost_eq.trans h.outermost_eq⟩

/-- Below the innermost frame the frames can be counted from it. -/
theorem outermost_eq_drop_tail (h : floor ≤ env.depth) :
    env.outermost floor = env.frames.tail.drop (env.depth - floor) := by
  unfold outermost
  rw [List.drop_tail, show env.depth + 1 - floor = env.depth - floor + 1 by omega]

theorem of_sameBelow (h : SameBelow env env') (hle : floor ≤ env.depth) : KeepsFloor floor env env' := by
  have hle' : floor ≤ env'.depth := by rw [h.depth]; exact hle
  refine ⟨hle', ?_⟩
  rw [outermost_eq_drop_tail hle, outermost_eq_drop_tail hle', h.below, h.depth]

theorem pushScope (hle : floor ≤ env.depth) : KeepsFloor floor env env.pushScope := by
  have hdepth : env.pushScope.depth = env.depth + 1 := rfl
  refine ⟨by omega, ?_⟩
  rw [outermost_eq_drop_tail (by omega), hdepth]
  rw [show env.depth + 1 - floor = env.depth - floor + 1 by omega]
  unfold outermost
  rw [show env.depth + 1 - floor = env.depth - floor + 1 by omega]
  rfl

/-- A scope above the floor can be closed. -/
theorem popScope (hlt : floor < env.depth) (h : env.popScope? = some env') : KeepsFloor floor env env' := by
  obtain ⟨scopes, base⟩ := env
  cases scopes with
  | nil => cases h
  | cons f fs =>
    cases h
    simp only [depth, List.length_cons] at hlt
    refine ⟨by simp only [depth]; omega, ?_⟩
    simp only [outermost, depth, frames, List.length_cons, List.cons_append]
    rw [show fs.length + 1 + 1 - floor = fs.length + 1 - floor + 1 by omega, List.drop_succ_cons]

/-- Closing the scopes opened since leaves the innermost frame as the only one that may differ. -/
theorem truncateScopes (h : KeepsFloor env.depth env env') :
    SameBelow env (env'.truncateScopes env.depth) := by
  obtain ⟨hle, hout⟩ := h
  have hdepth : (env'.truncateScopes env.depth).depth = env.depth := by
    simp only [depth, Environment.truncateScopes, List.length_drop] at hle ⊢
    omega
  have hframes : (env'.truncateScopes env.depth).frames = env'.frames.drop (env'.depth - env.depth) := by
    simp only [frames, Environment.truncateScopes, depth]
    rw [List.drop_append_of_le_length (by omega)]
  refine ⟨hdepth, ?_⟩
  rw [hframes, List.tail_drop, show env'.depth - env.depth + 1 = env'.depth + 1 - env.depth by omega]
  rw [show env'.frames.drop (env'.depth + 1 - env.depth) = env'.outermost env.depth from rfl, hout]
  rw [outermost_eq_drop_tail (Nat.le_refl _), Nat.sub_self, List.drop_zero]

end KeepsFloor

end BatchShell.Environment
