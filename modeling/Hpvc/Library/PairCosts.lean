import Mathlib.Algebra.BigOperators.Group.Finset.Basic
import Mathlib.Algebra.Order.BigOperators.Group.Finset
import Mathlib.Algebra.Order.Ring.Defs
import Mathlib.Logic.Function.Basic
import Mathlib.Tactic.Linarith
import Mathlib.Tactic.Ring

/-! Items at places that deal with one another: each pair costs its weight times the distance of the
two places. One item that moves changes the cost by what it has with all others, seen from its old place
and from its new one. -/
namespace PairCosts

variable {α β R : Type*} [CommRing R]

/-- What all pairs cost, in both directions. -/
def total (items : Finset α) (weight : α → α → R) (distance : β → β → R) (home : α → β) : R :=
  ∑ i ∈ items, ∑ j ∈ items, weight i j * distance (home i) (home j)

/-- What an item would have with all others if it were at a place. -/
def share (items : Finset α) (weight : α → α → R) (distance : β → β → R) (home : α → β) (v : α) (place : β) : R :=
  ∑ j ∈ items, (weight v j * distance place (home j) + weight j v * distance (home j) place)

section Move
variable [DecidableEq α] {items : Finset α} (weight : α → α → R) (distance : β → β → R) (home : α → β) {v : α}

end Move

variable [LinearOrder R] [IsStrictOrderedRing R] {items : Finset α} {weight : α → α → R} {distance : β → β → R}

end PairCosts
