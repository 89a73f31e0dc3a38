import Mathlib.Data.List.Basic
import Mathlib.Order.Lattice

/-! A scan that keeps the best entry seen so far. It starts from a bound that is
beaten strictly, and a later entry replaces an earlier one only when it is strictly
better, so the first of several best entries wins. -/
namespace Pick

/-- Scan `l`, starting from `best`; an entry is a value with what is recorded for it. -/
def pick (better : κ → κ → Bool) (eligible : α → Bool) (value : α → κ) (record : α → ρ) :
    List α → κ × ρ → κ × ρ
  | [], best => best
  | x :: rest, best => pick better eligible value record rest
      (if better (value x) best.1 && eligible x then (value x, record x) else best)

variable (better : κ → κ → Bool) (eligible : α → Bool) (value : α → κ) (record : α → ρ)

/-- Whatever the comparison does, the outcome is the start or an eligible entry. -/
theorem pick_mem (l : List α) (best : κ × ρ) :
    pick better eligible value record l best = best ∨
      ∃ x ∈ l, eligible x = true ∧ pick better eligible value record l best = (value x, record x) := by
  induction l generalizing best with
  | nil => exact .inl rfl
  | cons x rest ih =>
    simp only [pick]
    rcases ih (if better (value x) best.1 && eligible x then (value x, record x) else best) with
      same | ⟨y, hy, allowed, found⟩
    · rw [same]
      split
      next taken => exact .inr ⟨x, List.mem_cons_self, (Bool.and_eq_true_iff.mp taken).2, rfl⟩
      next => exact .inl rfl
    · exact .inr ⟨y, List.mem_cons_of_mem _ hy, allowed, found⟩

/-- One eligible entry that beats the start is enough for the start to be replaced. -/
theorem pick_replaced (l : List α) (best : κ × ρ) {x : α} (hx : x ∈ l) (allowed : eligible x = true)
    (beats : better (value x) best.1 = true) :
    ∃ y ∈ l, eligible y = true ∧ pick better eligible value record l best = (value y, record y) := by
  induction l generalizing best with
  | nil => simp at hx
  | cons y rest ih =>
    simp only [pick]
    by_cases taken : (better (value y) best.1 && eligible y) = true
    · rw [if_pos taken]
      rcases pick_mem better eligible value record rest (value y, record y) with
        same | ⟨z, hz, ok, found⟩
      · exact ⟨y, List.mem_cons_self, (Bool.and_eq_true_iff.mp taken).2, same⟩
      · exact ⟨z, List.mem_cons_of_mem _ hz, ok, found⟩
    · rw [if_neg taken]
      rcases List.mem_cons.mp hx with rfl | later
      · exact absurd (by simp [beats,allowed]) taken
      · obtain ⟨z, hz, ok, found⟩ := ih best later beats
        exact ⟨z, List.mem_cons_of_mem _ hz, ok, found⟩

/-- The entry a scan ends on: the first one that no eligible entry is better than. -/
structure Winner (better : κ → κ → Bool) (eligible : α → Bool) (value : α → κ)
    (l : List α) (x : α) : Prop where
  allowed : eligible x = true
  first : ∃ before after, l = before ++ x :: after ∧
    (∀ y ∈ before, eligible y = true → better (value x) (value y) = true) ∧
    ∀ y ∈ after, eligible y = true → better (value y) (value x) = false

/-- A list has one winner at most. -/
theorem Winner.unique {better : κ → κ → Bool} {eligible : α → Bool} {value : α → κ} {l : List α}
    {x y : α} (hx : Winner better eligible value l x) (hy : Winner better eligible value l y) :
    x = y := by
  obtain ⟨before, after, shape, pre, post⟩ := hx.first
  obtain ⟨before', after', shape', pre', post'⟩ := hy.first
  rcases List.append_eq_append_iff.mp (shape.symm.trans shape') with ⟨mid, left, right⟩ | ⟨mid, left, right⟩
  · cases mid with
    | nil => exact (List.cons.inj right).1
    | cons z rest =>
      -- `x` stands before `y`: it loses to `y` and does not.
      obtain ⟨rfl, rfl⟩ := List.cons.inj right
      have loses := pre' x (by simp [left]) hx.allowed
      have keeps := post y (by simp) hy.allowed
      simp [loses] at keeps
  · cases mid with
    | nil => exact (List.cons.inj right).1.symm
    | cons z rest =>
      obtain ⟨rfl, rfl⟩ := List.cons.inj right
      have loses := pre y (by simp [left]) hy.allowed
      have keeps := post' x (by simp) hx.allowed
      simp [loses] at keeps

/-- What is recorded for an entry plays no part in which one is found. -/
theorem pick_map (f : ρ → σ) (l : List α) (best : κ × ρ) :
    pick better eligible value (fun x => f (record x)) l (best.1, f best.2) =
      Prod.map id f (pick better eligible value record l best) := by
  induction l generalizing best with
  | nil => rfl
  | cons x rest ih =>
    simp only [pick]
    rw [← ih]
    congr 1
    split <;> rfl

/-- A loop whose state shows the best entry so far, and takes each element as a scan does, is a scan. -/
theorem foldl_pick (view : S → κ × ρ) (turn : S → α → S)
    (turns : ∀ s x, view (turn s x) =
      if better (value x) (view s).1 && eligible x then (value x, record x) else view s)
    (l : List α) (s : S) : view (l.foldl turn s) = pick better eligible value record l (view s) := by
  induction l generalizing s with
  | nil => rfl
  | cons x rest ih => rw [List.foldl_cons,ih,turns,pick]

/-- For a strict order with transitive incomparability the scan finds the winner,
or nothing eligible beats the start. -/
theorem pick_winner {better : κ → κ → Bool}
    (trans : ∀ a b c, better a b = true → better b c = true → better a c = true)
    (weak : ∀ a b c, better a b = false → better b c = false → better a c = false)
    (l : List α) (best : κ × ρ) :
    (pick better eligible value record l best = best ∧
      ∀ y ∈ l, eligible y = true → better (value y) best.1 = false) ∨
    ∃ x, pick better eligible value record l best = (value x, record x) ∧
      Winner better eligible value l x ∧ better (value x) best.1 = true := by
  induction l generalizing best with
  | nil => exact .inl ⟨rfl, by simp⟩
  | cons y rest ih =>
    by_cases taken : (better (value y) best.1 && eligible y) = true
    · have ⟨beats, ok⟩ := Bool.and_eq_true_iff.mp taken
      simp only [pick,if_pos taken]
      rcases ih (value y, record y) with ⟨same, none_better⟩ | ⟨x, found, won, above⟩
      · exact .inr ⟨y, same, ⟨ok, [], rest, rfl, by simp, none_better⟩, beats⟩
      · obtain ⟨before, after, shape, pre, post⟩ := won.first
        refine .inr ⟨x, found, ⟨won.allowed, y :: before, after, by simp [shape], ?_, post⟩,
          trans _ _ _ above beats⟩
        intro z hz allowed
        rcases List.mem_cons.mp hz with rfl | hz
        · exact above
        · exact pre z hz allowed
    · have refused (allowed : eligible y = true) : better (value y) best.1 = false := by
        simpa [allowed] using taken
      simp only [pick,if_neg taken]
      rcases ih best with ⟨same, none_better⟩ | ⟨x, found, won, above⟩
      · refine .inl ⟨same, fun z hz allowed => ?_⟩
        rcases List.mem_cons.mp hz with rfl | hz
        · exact refused allowed
        · exact none_better z hz allowed
      · obtain ⟨before, after, shape, pre, post⟩ := won.first
        refine .inr ⟨x, found, ⟨won.allowed, y :: before, after, by simp [shape], ?_, post⟩, above⟩
        intro z hz allowed
        rcases List.mem_cons.mp hz with rfl | hz
        · -- `z` does not beat the start, which `x` beats; so `x` beats `z`.
          by_contra lost
          have := weak _ _ _ (Bool.eq_false_iff.mpr lost) (refused allowed)
          simp [above] at this
        · exact pre z hz allowed

/-- Scanning for the largest value. -/
def more [LT κ] [DecidableLT κ] (a b : κ) : Bool := decide (b < a)

/-- Scanning for the smallest value. -/
def less [LT κ] [DecidableLT κ] (a b : κ) : Bool := decide (a < b)

/-- Scanning for the smallest value, the last one where several are. -/
def notMore [LE κ] [DecidableLE κ] (a b : κ) : Bool := decide (a ≤ b)

section Ordered

variable {κ : Type*} [LinearOrder κ] [DecidableLT κ]

theorem more_trans (a b c : κ) (h : more a b = true) (k : more b c = true) : more a c = true := by
  simp only [more,decide_eq_true_eq] at *
  exact k.trans h

theorem more_weak (a b c : κ) (h : more a b = false) (k : more b c = false) : more a c = false := by
  simp only [more,decide_eq_false_iff_not,not_lt] at *
  exact h.trans k

theorem less_trans (a b c : κ) (h : less a b = true) (k : less b c = true) : less a c = true := by
  simp only [less,decide_eq_true_eq] at *
  exact h.trans k

theorem less_weak (a b c : κ) (h : less a b = false) (k : less b c = false) : less a c = false := by
  simp only [less,decide_eq_false_iff_not,not_lt] at *
  exact k.trans h

omit [DecidableLT κ] in
theorem notMore_trans (a b c : κ) (h : notMore a b = true) (k : notMore b c = true) : notMore a c = true := by
  simp only [notMore,decide_eq_true_eq] at *
  exact h.trans k

omit [DecidableLT κ] in
theorem notMore_weak (a b c : κ) (h : notMore a b = false) (k : notMore b c = false) : notMore a c = false := by
  simp only [notMore,decide_eq_false_iff_not,not_le] at *
  exact k.trans h

theorem Winner.le {eligible : α → Bool} {value : α → κ} {l : List α} {x y : α}
    (won : Winner less eligible value l x) (member : y ∈ l) (allowed : eligible y = true) :
    value x ≤ value y := by
  obtain ⟨before, after, rfl, pre, post⟩ := won.first
  rcases List.mem_append.mp member with early | late
  · exact (of_decide_eq_true (pre y early allowed)).le
  · rcases List.mem_cons.mp late with rfl | late
    · exact le_rfl
    · simpa [less] using post y late allowed

end Ordered

/-- Over increasing numbers the winner is the smallest index among the best. -/
theorem Winner.range {better : κ → κ → Bool} {eligible : Nat → Bool} {value : Nat → κ} {n c : Nat}
    (won : Winner better eligible value (List.range n) c) :
    c < n ∧ (∀ i < c, eligible i = true → better (value c) (value i) = true) ∧
      ∀ i < n, c < i → eligible i = true → better (value i) (value c) = false := by
  obtain ⟨before, after, shape, pre, post⟩ := won.first
  have place (i : Nat) : i < n ↔ i ∈ before ∨ i = c ∨ i ∈ after := by
    rw [← List.mem_range,shape]; simp
  have ordered := (shape ▸ List.pairwise_lt_range : (before ++ c :: after).Pairwise (· < ·))
  obtain ⟨_, tail, cross⟩ := List.pairwise_append.mp ordered
  have above := (List.pairwise_cons.mp tail).1
  have bound : c < n := (place c).mpr (.inr (.inl rfl))
  refine ⟨bound, fun i below ok => ?_, fun i inside beyond ok => ?_⟩
  · rcases (place i).mp (by omega) with member | rfl | member
    · exact pre i member ok
    · omega
    · have := above i member; omega
  · rcases (place i).mp inside with member | rfl | member
    · have := cross i member c List.mem_cons_self; omega
    · omega
    · exact post i member ok

end Pick
