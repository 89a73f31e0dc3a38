import Hpvc.OrganizerAccounting
import Hpvc.OrganizerGuestBalance
import Mathlib.Analysis.SpecialFunctions.Log.Base
import Mathlib.Analysis.SpecialFunctions.Pow.Real
import Mathlib.Tactic.Ring

/-! The request that `create_tasks` fills in for a new task, the VM that
`guest_load_balance` answers with, and the amounts that are then charged to that VM. -/
namespace Hpvc.Organizer

section Requests
variable {R : Type} [Field R] [LinearOrder R]

/-- The request for a task: `memory` and `net` are both its memory. -/
def taskRequest (need : ResourceNeed) : Usage R := ⟨(need.memory : R), (need.memory : R)⟩

/-- The VM in the answer to a request, from the VMs' loads and properties. -/
def chosenVm (math : CMath R) (n selected maxGuestJob : Nat) (load : Nat → Nat)
    (used : Nat → Usage R) (request : Usage R) : Nat :=
  (Pick.pick Pick.less (fun _ => true)
    (fun v => marginalCost math n (load v) maxGuestJob (used v) request) id
    (visits n (selected + 1) n) (math.dblMax, selected)).2

theorem selectVm_chosen (math : CMath R) (n : Nat) (s : Balance) (used : Nat → Usage R)
    (request : Usage R) :
    (selectVm math n s used request).2.1 =
      chosenVm math n s.selectedVmNumber s.maxGuestJob s.vmLoad used request := by
  have same := Pick.pick_map Pick.less (fun _ : Nat => true)
    (fun v => marginalCost math n (s.vmLoad v) s.maxGuestJob (used v) request)
    (fun v => (v, s.vmLoad v + 1)) Prod.fst (visits n (s.selectedVmNumber + 1) n)
    (math.dblMax, s.selectedVmNumber, 0)
  exact (congrArg Prod.snd same).symm

/-- The answer on which `create_tasks` acts next. -/
theorem balance_pending {math : CMath R} {n : Nat} {s next : Balance} {used : Nat → Usage R}
    {request : Usage R} (answered : balance math n s used request = some next) :
    next.pending = some (chosenVm math n s.selectedVmNumber s.maxGuestJob s.vmLoad used request) := by
  rw [← selectVm_chosen]
  simp only [balance] at answered
  split at answered
  · split at answered
    · contradiction
    · cases answered
      rfl
  · cases answered
    rfl

end Requests

section Apart
variable {n : Nat} (several : 2 ≤ n)
include several

end Apart

end Hpvc.Organizer
