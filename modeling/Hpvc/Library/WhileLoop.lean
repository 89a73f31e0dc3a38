/-! A `while` loop over an explicit state, with fuel for its turns. A loop ends if some
fuel is enough for it. -/
namespace WhileLoop

/-- The state after the loop, unless it takes more than `fuel` turns. -/
def loop (test : S → Bool) (body : S → S) : Nat → S → Option S
  | 0, s => if test s then none else some s
  | fuel + 1, s => if test s then loop test body fuel (body s) else some s

def Ends (test : S → Bool) (body : S → S) (s final : S) : Prop :=
  ∃ fuel, loop test body fuel s = some final

variable {test : S → Bool} {body : S → S}

/-- What the body keeps holds at the end, and the test fails there. -/
theorem Ends.invariant {s final : S} (ends : Ends test body s final) (property : S → Prop)
    (kept : ∀ s, property s → test s = true → property (body s)) (initial : property s) :
    property final ∧ test final = false := by
  obtain ⟨fuel, result⟩ := ends
  induction fuel generalizing s with
  | zero =>
    simp only [loop] at result
    split at result
    · contradiction
    next stop =>
      cases result
      exact ⟨initial, by simpa using stop⟩
  | succ fuel ih =>
    simp only [loop] at result
    split at result
    next goes => exact ih (kept s initial goes) result
    next stop =>
      cases result
      exact ⟨initial, by simpa using stop⟩

/-- A measure that goes down with every turn is fuel enough. -/
theorem ends_of_measure (test : S → Bool) (body : S → S) (property : S → Prop) (measure : S → Nat)
    (down : ∀ s, property s → test s = true → property (body s) ∧ measure (body s) < measure s)
    {s : S} (initial : property s) : ∃ final, Ends test body s final := by
  suffices ∀ fuel s, property s → measure s ≤ fuel → ∃ final, loop test body fuel s = some final by
    obtain ⟨final, result⟩ := this (measure s) s initial (Nat.le_refl _)
    exact ⟨final, measure s, result⟩
  intro fuel
  induction fuel with
  | zero =>
    intro s good enough
    cases goes : test s with
    | false => exact ⟨s, by simp [loop,goes]⟩
    | true => have := (down s good goes).2; omega
  | succ fuel ih =>
    intro s good enough
    cases goes : test s with
    | false => exact ⟨s, by simp [loop,goes]⟩
    | true =>
      obtain ⟨still, less⟩ := down s good goes
      obtain ⟨final, result⟩ := ih (body s) still (by omega)
      exact ⟨final, by simp [loop,goes,result]⟩

/-- The test never fails in a state with the property: the loop does not end. -/
theorem Ends.false_of_stuck {s final : S} (ends : Ends test body s final) (property : S → Prop)
    (kept : ∀ s, property s → test s = true → property (body s)) (goes : ∀ s, property s → test s = true)
    (initial : property s) : False := by
  obtain ⟨good, stop⟩ := ends.invariant property kept initial
  simp [goes final good] at stop

/-- The state after `k` turns, or at the end of the loop if that comes first. -/
def after (test : S → Bool) (body : S → S) : Nat → S → S
  | 0, s => s
  | k + 1, s => if test (after test body k s) then body (after test body k s) else after test body k s

theorem after_invariant (property : S → Prop) (kept : ∀ s, property s → test s = true → property (body s))
    {s : S} (initial : property s) (k : Nat) : property (after test body k s) := by
  induction k with
  | zero => exact initial
  | succ k ih =>
    rw [after]
    split
    next goes => exact kept _ ih goes
    next stop => exact ih

/-- Where a turn keeps the property exactly in good states, a run keeps it exactly if all its turns
start in good states. -/
theorem always_iff {property good : S → Prop}
    (step : ∀ s, property s → test s = true → (property (body s) ↔ good s)) {s : S} (initial : property s) :
    (∀ k, property (after test body k s)) ↔
      ∀ k, test (after test body k s) = true → good (after test body k s) := by
  constructor
  · intro always k goes
    have next := always (k + 1)
    rw [after,if_pos goes] at next
    exact (step _ (always k) goes).mp next
  · intro all_good k
    induction k with
    | zero => exact initial
    | succ k ih =>
      rw [after]
      split
      next goes => exact (step _ ih goes).mpr (all_good k goes)
      next stop => exact ih

/-- Two bodies that agree wherever the one gets make the same run. -/
theorem after_congr {other : S → S} (property : S → Prop)
    (kept : ∀ s, property s → test s = true → property (body s))
    (same : ∀ s, property s → test s = true → other s = body s) {s : S} (initial : property s) (k : Nat) :
    after test other k s = after test body k s := by
  induction k with
  | zero => rfl
  | succ k ih =>
    have reached := after_invariant property kept initial k
    rw [after,after,ih]
    split
    next goes => exact same _ reached goes
    next stop => rfl

end WhileLoop
