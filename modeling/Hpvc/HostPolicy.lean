import Hpvc.HostPlacement
import Hpvc.OrganizerGuestBalance

/-! `policy_func_inhab_mig` of the host load balancer: for each host, look for the VM and the
target whose migration costs least, among those where it costs less than half of what
the VM costs where it is. Costs are differences of powers of the number of hosts. -/
namespace Hpvc.HostBalancer

open Organizer (CMath)

/-- What the policy reads of a VM: its process list, its cores, and "net". -/
structure VmUsage (R : Type) where
  processes : Nat
  cores : Nat
  net : R

def VmUsage.load (vm : VmUsage R) : Int := (vm.processes * vm.cores : Nat)

section Policy
variable {R : Type} [Add R] [Sub R] [Div R] [Zero R] [IntCast R] [LT R] [DecidableLT R] [LE R]
  [DecidableLE R]

def maxPmNet : R := ((125000000 : Int) : R)

/-- The loop over the VMs of a host. It also adds up "mem", which no cost depends on. -/
def pmUsage (vms : Nat → VmUsage R) (hvi : HostVmInfo) : Int × R :=
  hvi.live.foldl (fun usage v => (usage.1 + (vms v).load, usage.2 + (vms v).net)) (0, 0)

/-- A load or a sum of "net" as a power of the number of hosts. -/
def loadTerm (math : CMath R) (c : Cluster) (maxPmVm : Int) (cores : Nat) (load : Int) : R :=
  math.pow (((c.numberOfInvolvedHost : Nat) : Int) : R) ((load : R) / ((maxPmVm * (cores : Int) : Int) : R))

def netTerm (math : CMath R) (c : Cluster) (net : R) : R :=
  math.pow (((c.numberOfInvolvedHost : Nat) : Int) : R) (net / maxPmNet)

def inhabitancyCost (math : CMath R) (c : Cluster) (maxPmVm : Int) (cores : Nat) (pm : Int × R)
    (vm : VmUsage R) : R :=
  loadTerm math c maxPmVm cores pm.1 + netTerm math c pm.2 -
    loadTerm math c maxPmVm cores (pm.1 - vm.load) - netTerm math c (pm.2 - vm.net)

def migrationCost (math : CMath R) (c : Cluster) (maxPmVm : Int) (cores : Nat) (tm : Int × R)
    (vm : VmUsage R) : R :=
  loadTerm math c maxPmVm cores (tm.1 + vm.load) + netTerm math c (tm.2 + vm.net) -
    loadTerm math c maxPmVm cores tm.1 - netTerm math c tm.2

/-- The best migration so far, and the count of those that were best when they were seen. -/
structure Scan (R : Type) where
  minCost : R
  placement : Option VmPlacement
  migrationDecisionCount : Nat

/-- The scan of the VMs of host `m` and, for each, of all other hosts of the cluster. -/
def scanHost (math : CMath R) (c : Cluster) (s : State) (vms : Nat → VmUsage R) (cores : Nat → Nat)
    (m : Nat) : Scan R :=
  let pm := pmUsage vms (s.hostVmInfo m)
  (s.hostVmInfo m).live.foldl (fun scan v =>
    let inhabitancy := inhabitancyCost math c s.maxPmVm (cores m) pm (vms v)
    (List.range' c.firstHost c.numberOfInvolvedHost).foldl (fun scan k =>
      if k = m then scan
      else
        let migration :=
          migrationCost math c s.maxPmVm (cores k) (pmUsage vms (s.hostVmInfo k)) (vms v)
        if migration < inhabitancy / ((2 : Int) : R) then
          if migration ≤ scan.minCost then
            ⟨migration, some ⟨v, k⟩, scan.migrationDecisionCount + 1⟩
          else scan
        else scan) scan) ⟨math.dblMax, none, 0⟩

/-- A migration that the stability condition allows. -/
def Stable (math : CMath R) (c : Cluster) (s : State) (vms : Nat → VmUsage R) (cores : Nat → Nat)
    (m : Nat) (placement : VmPlacement) : Prop :=
  placement.vm ∈ (s.hostVmInfo m).live ∧ c.HasHost placement.targetPm ∧ placement.targetPm ≠ m ∧
    migrationCost math c s.maxPmVm (cores placement.targetPm)
        (pmUsage vms (s.hostVmInfo placement.targetPm)) (vms placement.vm) <
      inhabitancyCost math c s.maxPmVm (cores m) (pmUsage vms (s.hostVmInfo m)) (vms placement.vm) /
        ((2 : Int) : R)

/-- The rest of the turn of host `m`: the migration that was selected, if any. -/
def policyHost (math : CMath R) (c : Cluster) (vms : Nat → VmUsage R) (cores : Nat → Nat) (s : State)
    (m : Nat) : Option State :=
  match (scanHost math c s vms cores m).placement with
  | some placement => placeVm c s placement
  | none => some s

/-- Whatever pair is kept has passed the stability condition. -/
theorem scanHost_stable {math : CMath R} {c : Cluster} {s : State} {vms : Nat → VmUsage R}
    {cores : Nat → Nat} {m : Nat} {placement : VmPlacement}
    (selected : (scanHost math c s vms cores m).placement = some placement) :
    Stable math c s vms cores m placement := by
  revert selected placement
  unfold scanHost
  apply List.foldlRecOn (motive := fun scan : Scan R =>
    ∀ {placement}, scan.placement = some placement → Stable math c s vms cores m placement)
  · intro placement none
    contradiction
  · intro scan kept v listed
    apply List.foldlRecOn (motive := fun scan : Scan R =>
      ∀ {placement}, scan.placement = some placement → Stable math c s vms cores m placement)
    · exact kept
    · intro scan kept k inside
      dsimp only
      split
      · exact kept
      next other =>
        split
        next allowed =>
          split
          · intro placement is
            cases is
            obtain ⟨above, below⟩ := List.mem_range'_1.mp inside
            exact ⟨listed, ⟨above, below⟩, other, allowed⟩
          · exact kept
        · exact kept

end Policy
end Hpvc.HostBalancer
