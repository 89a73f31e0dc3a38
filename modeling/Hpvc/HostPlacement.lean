import Hpvc.Library.Bins
import Hpvc.Library.Bytes
import Hpvc.Library.Runs
import Hpvc.Library.SlotArray

/-! `place_vm` of the host load balancer: migrate a VM and edit the `host_vm_info` of
the two hosts. Numbers are C `int`s, four bytes with the little end first. -/
namespace Hpvc.HostBalancer

def maxVmToPm : Int := 5

/-- `host_vm_info`. Slots from the fifth on are whatever follows the array in memory. -/
structure HostVmInfo where
  numberOfVms : Int
  vmsIndex : Nat → Nat

/-- The first `numberOfVms` entries. -/
def HostVmInfo.live (hvi : HostVmInfo) : List Nat := SlotArray.live hvi.vmsIndex hvi.numberOfVms.toNat

/-- The lengths of `hosts_dynar` and of the `vm_list` of a cluster, and its hosts. -/
structure Cluster where
  hosts : Nat
  vms : Nat
  firstHost : Nat
  numberOfInvolvedHost : Nat
  inside : firstHost + numberOfInvolvedHost ≤ hosts
  int_vms : vms ≤ 2 ^ 31

def Cluster.HasHost (c : Cluster) (b : Nat) : Prop :=
  c.firstHost ≤ b ∧ b < c.firstHost + c.numberOfInvolvedHost

structure VmPlacement where
  vm : Nat
  targetPm : Nat

/-- The `host_vm_info` property of every host, the host every VM is on (`MSG_vm_get_pm`),
and the two counters. -/
structure State where
  hostVmInfo : Nat → HostVmInfo
  pm : Nat → Nat
  maxPmVm : Int
  migrationCount : Nat

/-- `hvi.vms_index[hvi.number_of_vms] = v; hvi.number_of_vms++` -/
def HostVmInfo.append (hvi : HostVmInfo) (v : Nat) : HostVmInfo where
  numberOfVms := hvi.numberOfVms + 1
  vmsIndex := Function.update hvi.vmsIndex hvi.numberOfVms.toNat v

/-- The loop that looks for a VM; it ends at `number_of_vms` when the VM is not listed. -/
def HostVmInfo.search (hvi : HostVmInfo) (v : Nat) : Nat :=
  ((List.range hvi.numberOfVms.toNat).find? fun i => hvi.vmsIndex i == v).getD hvi.numberOfVms.toNat

/-- The entry goes: `memmove` gets a number of entries where it wants a number of bytes. -/
def HostVmInfo.pull (hvi : HostVmInfo) (v : Nat) : HostVmInfo where
  numberOfVms := hvi.numberOfVms - 1
  vmsIndex := Bytes.pullBytes (hvi.search v) (hvi.numberOfVms.toNat - hvi.search v) hvi.vmsIndex

/-- `place_vm`. It fails on an index outside the dynars and where a count below zero
is used as an index or a length; and with the VM's own host as target, it reads the
new `host_vm_info` after `MSG_host_set_property_value` freed it. -/
def placeVm (c : Cluster) (s : State) (placement : VmPlacement) : Option State :=
  if c.hosts ≤ placement.targetPm then none
  else
    let preHvi := s.hostVmInfo placement.targetPm
    if maxVmToPm ≤ preHvi.numberOfVms then some s
    else if c.vms ≤ placement.vm ∨ preHvi.numberOfVms < 0 then none
    else
      let preHost := s.pm placement.vm
      -- What is appended is the number of the host.
      let newHvi := preHvi.append placement.targetPm
      let preHostHvi := s.hostVmInfo preHost
      if preHost = placement.targetPm ∨ preHostHvi.numberOfVms < 0 then none
      else some
        { hostVmInfo := Function.update (Function.update s.hostVmInfo placement.targetPm newHvi)
            preHost (preHostHvi.pull placement.vm)
          pm := Function.update s.pm placement.vm placement.targetPm
          maxPmVm := if s.maxPmVm ≤ newHvi.numberOfVms then s.maxPmVm * 2 else s.maxPmVm
          migrationCount := s.migrationCount + 1 }

/-- Every VM of the cluster is listed once, by the host it is on; only VMs are listed,
and no host lists more than `MAX_VM_TO_PM`. -/
structure Accurate (c : Cluster) (s : State) : Prop where
  filed : Bins.Accurate (· < c.vms) c.HasHost s.pm fun b => (s.hostVmInfo b).live
  counted : ∀ b, c.HasHost b → 0 ≤ (s.hostVmInfo b).numberOfVms
  capacity : ∀ b, c.HasHost b → (s.hostVmInfo b).numberOfVms ≤ maxVmToPm

/-- A call that moves a VM of the cluster to another of its hosts. -/
structure Moves (c : Cluster) (s : State) (placement : VmPlacement) : Prop where
  vm : placement.vm < c.vms
  target : c.HasHost placement.targetPm
  other : s.pm placement.vm ≠ placement.targetPm

/-- What a call should do to the lists. -/
structure Refiled (c : Cluster) (s : State) (placement : VmPlacement) (next : State) : Prop where
  accurate : Accurate c next
  full : maxVmToPm ≤ (s.hostVmInfo placement.targetPm).numberOfVms → next = s
  new : (s.hostVmInfo placement.targetPm).numberOfVms < maxVmToPm →
    next.pm placement.vm = placement.targetPm ∧
    (next.hostVmInfo placement.targetPm).live.count placement.vm = 1 ∧
    placement.vm ∉ (next.hostVmInfo (s.pm placement.vm)).live
  others : ∀ v < c.vms, v ≠ placement.vm → ∀ b, c.HasHost b →
    (v ∈ (next.hostVmInfo b).live ↔ v ∈ (s.hostVmInfo b).live)

/-- Of the entries from the VM's own on, `b 0`, `b 1` and so forth, the right ones are left
when only as many bytes move as there are entries. The powers of two stand for the
bytes of a word that stay in place. -/
def PullsWell (b : Nat → Nat) : Nat → Prop
  | 1 => True
  | 2 => b 0 / 2 ^ 16 = b 1 / 2 ^ 16
  | 3 => b 0 / 2 ^ 24 * 2 ^ 24 + b 1 % 2 ^ 24 = b 2
  | 5 => b 1 / 2 ^ 8 * 2 ^ 8 + b 2 % 2 ^ 8 = b 4
  | _ => False

/-- When a call does right by the lists: it does nothing, as the target is full; or the
VM and the target host have the same number, and the VM stands in a place of its old
host's list from which the misfit `memmove` deletes it. -/
def Harmless (s : State) (placement : VmPlacement) : Prop :=
  maxVmToPm ≤ (s.hostVmInfo placement.targetPm).numberOfVms ∨
    placement.targetPm = placement.vm ∧
    ∃ i, (s.hostVmInfo (s.pm placement.vm)).live[i]? = some placement.vm ∧
      PullsWell (fun j => (s.hostVmInfo (s.pm placement.vm)).vmsIndex (i + j))
        ((s.hostVmInfo (s.pm placement.vm)).live.length - i)

end Hpvc.HostBalancer
