import Hpvc.Library.Runs
import Mathlib.Algebra.BigOperators.Group.Finset.Basic

/-! Machines with steps that count as progress: each uses up some of a measure, which no step restores.
A run makes only so many of them, and what can make no more of them has to be looked at. -/
namespace Progress

open Runs (run)

variable {S E : Type} {step : S → E → Option S} {productive : E → Bool} {good : S → Prop} {left : S → Nat}

/-- No productive step can be taken. Others may still be. -/
def Exhausted (step : S → E → Option S) (productive : E → Bool) (s : S) : Prop :=
  ∀ event, productive event = true → step s event = none

/-- In good states, which every step keeps good, a productive step lowers the measure, and no step
raises it. -/
structure Descends (step : S → E → Option S) (productive : E → Bool) (good : S → Prop) (left : S → Nat) :
    Prop where
  kept : ∀ s event next, good s → step s event = some next → good next
  lowers : ∀ s event next, good s → step s event = some next → productive event = true → left next < left s
  keeps : ∀ s event next, good s → step s event = some next → productive event = false → left next ≤ left s

/-- A run makes at most as many productive steps as its measure allows. -/
theorem Descends.run_le (descends : Descends step productive good left) {s final : S} {events : List E}
    (initial : good s) (reached : run step s events = some final) :
    events.countP productive + left final ≤ left s := by
  induction events generalizing s with
  | nil =>
    cases reached
    simp
  | cons event rest ih =>
    obtain ⟨next, taken, later⟩ := Option.bind_eq_some_iff.mp reached
    have tail := ih (descends.kept s event next initial taken) later
    cases counts : productive event with
    | true =>
      have lower := descends.lowers s event next initial taken counts
      rw [List.countP_cons_of_pos counts]
      omega
    | false =>
      have no_higher := descends.keeps s event next initial taken counts
      rw [List.countP_cons_of_neg (by simp [counts])]
      omega

/-- Productive steps alone lead to where there are none left. -/
theorem Descends.exhausts (descends : Descends step productive good left) {s : S} (initial : good s) :
    ∃ events final, run step s events = some final ∧ Exhausted step productive final := by
  refine Runs.run_reaches good (Exhausted step productive) left (fun mid fine unexhausted => ?_) initial
  obtain ⟨event, unfinished⟩ := not_forall.mp unexhausted
  obtain ⟨counts, able⟩ := Classical.not_imp.mp unfinished
  obtain ⟨next, taken⟩ := Option.ne_none_iff_exists'.mp able
  exact ⟨event, next, taken, descends.kept mid event next fine taken,
    descends.lowers mid event next fine taken counts⟩

/-- A sum over many parties when one of them changes. -/
theorem sum_update {I A : Type} [DecidableEq I] {parties : Finset I} {i : I} (member : i ∈ parties)
    (size : A → Nat) (f : I → A) (a : A) :
    (∑ j ∈ parties, size (Function.update f i a j)) + size (f i) = (∑ j ∈ parties, size (f j)) + size a := by
  have others : ∑ j ∈ parties.erase i, size (Function.update f i a j) = ∑ j ∈ parties.erase i, size (f j) :=
    Finset.sum_congr rfl fun j other => by rw [Function.update_of_ne (Finset.ne_of_mem_erase other)]
  rw [← Finset.add_sum_erase parties _ member,← Finset.add_sum_erase parties (fun j => size (f j)) member,
    others,Function.update_self]
  omega

end Progress
