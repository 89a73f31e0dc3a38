import Mathlib.Algebra.BigOperators.Group.Finset.Basic
import Mathlib.Algebra.BigOperators.Group.List.Basic
import Mathlib.Data.List.Nodup
import Mathlib.Logic.Function.Basic
import Mathlib.Tactic.Abel

/-! Items at places: the load of a place is the sum of what its items weigh. One item that
moves changes two loads, and in a sum of costs over all places only two terms. -/
namespace Loads

variable {α β M R : Type*} [DecidableEq β]

def load [AddCommMonoid M] (items : List α) (home : α → β) (weight : α → M) (b : β) : M :=
  ((items.filter fun v => home v = b).map weight).sum

theorem load_cons [AddCommMonoid M] (v : α) (items : List α) (home : α → β) (weight : α → M) (b : β) :
    load (v :: items) home weight b =
      (if home v = b then weight v else 0) + load items home weight b := by
  by_cases here : home v = b <;> simp [load,here]

/-- Items that weigh one are counted. -/
theorem load_one (items : List α) (home : α → β) (b : β) :
    load items home (fun _ => 1) b = items.countP fun v => home v = b := by
  induction items with
  | nil => rfl
  | cons v rest ih =>
    rw [load_cons,ih,List.countP_cons,Nat.add_comm]
    simp only [decide_eq_true_eq]

variable [DecidableEq α]

theorem load_absent [AddCommMonoid M] {v : α} {items : List α} (absent : v ∉ items) (home : α → β)
    (weight : α → M) (t b : β) :
    load items (Function.update home v t) weight b = load items home weight b := by
  unfold load
  congr 2
  apply List.filter_congr
  intro w member
  rw [Function.update_of_ne (ne_of_mem_of_not_mem member absent)]

/-- What an item weighs goes from its old place to its new one; they may be the same. -/
theorem load_move [AddCommMonoid M] {v : α} {items : List α} (once : items.Nodup) (member : v ∈ items)
    (home : α → β) (weight : α → M) (t b : β) :
    load items (Function.update home v t) weight b + (if home v = b then weight v else 0) =
      load items home weight b + if t = b then weight v else 0 := by
  induction items with
  | nil => contradiction
  | cons w rest ih =>
    obtain ⟨absent, later_once⟩ := List.nodup_cons.mp once
    rw [load_cons,load_cons]
    by_cases same : w = v
    · subst same
      rw [Function.update_self,load_absent absent]
      abel
    · have later : v ∈ rest := (List.mem_cons.mp member).resolve_left (Ne.symm same)
      rw [Function.update_of_ne same,add_assoc,ih later_once later,add_assoc]

variable [AddCommGroup M] [AddCommGroup R]

/-- What all places cost. -/
def potential (places : Finset β) (cost : β → M → R) (loads : β → M) : R :=
  ∑ b ∈ places, cost b (loads b)

/-- An item that moves to another place lowers the potential by what its old place saves,
less what its new place pays. -/
theorem potential_move {v : α} {items : List α} {places : Finset β} (once : items.Nodup)
    (member : v ∈ items) (home : α → β) (weight : α → M) (cost : β → M → R) {t : β}
    (from_place : home v ∈ places) (to_place : t ∈ places) (other : t ≠ home v) :
    potential places cost (load items home weight) -
        potential places cost (load items (Function.update home v t) weight) =
      (cost (home v) (load items home weight (home v)) -
        cost (home v) (load items home weight (home v) - weight v)) -
      (cost t (load items home weight t + weight v) - cost t (load items home weight t)) := by
  have balance := load_move once member home weight t
  have left : load items (Function.update home v t) weight (home v) =
      load items home weight (home v) - weight v := by
    have := balance (home v)
    rw [if_pos rfl,if_neg other,add_zero] at this
    exact eq_sub_of_add_eq this
  have arrived : load items (Function.update home v t) weight t = load items home weight t + weight v := by
    have := balance t
    rwa [if_neg other.symm,if_pos rfl,add_zero] at this
  have kept (b : β) (away : b ≠ home v) (elsewhere : b ≠ t) :
      load items (Function.update home v t) weight b = load items home weight b := by
    have := balance b
    rwa [if_neg away.symm,if_neg elsewhere.symm,add_zero,add_zero] at this
  have two : ({home v, t} : Finset β) ⊆ places := by
    intro b member
    rcases Finset.mem_insert.mp member with rfl | there
    · exact from_place
    · rwa [Finset.mem_singleton.mp there]
  rw [potential,potential,← Finset.sum_sub_distrib,← Finset.sum_subset two,
    Finset.sum_pair other.symm,left,arrived]
  · abel
  · intro b _ away
    rw [Finset.mem_insert,Finset.mem_singleton,not_or] at away
    rw [kept b away.1 away.2,sub_self]

end Loads
