import Hpvc.HostPlacementLists
import Hpvc.Library.Loads

/-! How many VMs `place_vm` takes a host to have. The count goes up at the target and down
at the old host without a look at the list, so it is right whatever the lists say. -/
namespace Hpvc.HostBalancer

/-- `place_vm` for any target, the VM's own host included. Its `host_vm_info` is then read
again after it was stored, and `stale` is what the freed `new_hvi` holds at the end. -/
def placeVmAnywhere (c : Cluster) (s : State) (placement : VmPlacement) (stale : Int) : Option State :=
  if c.hosts ≤ placement.targetPm then none
  else
    let preHvi := s.hostVmInfo placement.targetPm
    if maxVmToPm ≤ preHvi.numberOfVms then some s
    else if c.vms ≤ placement.vm ∨ preHvi.numberOfVms < 0 then none
    else
      let preHost := s.pm placement.vm
      let newHvi := preHvi.append placement.targetPm
      let stored := Function.update s.hostVmInfo placement.targetPm newHvi
      let preHostHvi := stored preHost
      if preHostHvi.numberOfVms < 0 then none
      else
        let compared := if preHost = placement.targetPm then stale else newHvi.numberOfVms
        some
          { hostVmInfo := Function.update stored preHost (preHostHvi.pull placement.vm)
            pm := Function.update s.pm placement.vm placement.targetPm
            maxPmVm := if s.maxPmVm ≤ compared then s.maxPmVm * 2 else s.maxPmVm
            migrationCount := s.migrationCount + 1 }

/-- Where the target is another host, this is the function that leaves the aliased call out. -/
theorem placeVmAnywhere_of_placeVm {c : Cluster} {s next : State} {placement : VmPlacement}
    (placed : placeVm c s placement = some next) (stale : Int) :
    placeVmAnywhere c s placement stale = some next := by
  unfold placeVm at placed
  unfold placeVmAnywhere
  split at placed
  · contradiction
  next inside =>
    dsimp only at placed ⊢
    rw [if_neg inside]
    split at placed
    next full => rw [if_pos full,placed]
    next room =>
      rw [if_neg room]
      split at placed
      · contradiction
      next fine =>
        rw [if_neg fine]
        split at placed
        · contradiction
        next good =>
          obtain ⟨other, source⟩ := not_or.mp good
          rw [Function.update_of_ne other,if_neg source,if_neg other,placed]

/-- The VMs of the cluster that really are on a host. -/
def occupancy (c : Cluster) (s : State) (b : Nat) : Nat :=
  (List.range c.vms).countP fun v => s.pm v = b

/-- The hosts of the cluster, and any other that one of its VMs is on. -/
def Concerns (c : Cluster) (s : State) (b : Nat) : Prop :=
  c.HasHost b ∨ ∃ v < c.vms, s.pm v = b

structure Counted (c : Cluster) (s : State) : Prop where
  counted : ∀ b, Concerns c s b → (s.hostVmInfo b).numberOfVms = occupancy c s b
  capacity : ∀ b, Concerns c s b → (s.hostVmInfo b).numberOfVms ≤ maxVmToPm

/-- A call, with what would be read from the freed memory. -/
abbrev Call := VmPlacement × Int

def callStep (c : Cluster) (s : State) (call : Call) : Option State :=
  placeVmAnywhere c s call.1 call.2

/-- Any VM of the cluster and any of its hosts. -/
def Valid (c : Cluster) (call : Call) : Prop := call.1.vm < c.vms ∧ c.HasHost call.1.targetPm

/-- What a call that finds room on its target does: one VM more there, one less where it was. -/
structure Carried (s : State) (placement : VmPlacement) (next : State) : Prop where
  pm : next.pm = Function.update s.pm placement.vm placement.targetPm
  counts : ∀ b, (next.hostVmInfo b).numberOfVms + (if s.pm placement.vm = b then 1 else 0) =
    (s.hostVmInfo b).numberOfVms + if placement.targetPm = b then 1 else 0

/-- A valid call from right counts goes through. -/
theorem call_cases {c : Cluster} {s : State} {call : Call} (right : Counted c s) (valid : Valid c call) :
    (maxVmToPm ≤ (s.hostVmInfo call.1.targetPm).numberOfVms ∧ callStep c s call = some s) ∨
      ((s.hostVmInfo call.1.targetPm).numberOfVms < maxVmToPm ∧
        ∃ next, callStep c s call = some next ∧ Carried s call.1 next) := by
  obtain ⟨⟨vm, target⟩, stale⟩ := call
  obtain ⟨bound, host⟩ := valid
  dsimp only at bound host ⊢
  have inside : ¬ c.hosts ≤ target := by
    have := c.inside
    have := host.2
    omega
  by_cases full : maxVmToPm ≤ (s.hostVmInfo target).numberOfVms
  · exact .inl ⟨full, by simp only [callStep,placeVmAnywhere,if_neg inside,if_pos full]⟩
  · right
    have at_target := right.counted _ (.inl host)
    have at_home := right.counted (s.pm vm) (.inr ⟨vm, bound, rfl⟩)
    have fine : ¬ (c.vms ≤ vm ∨ (s.hostVmInfo target).numberOfVms < 0) := by omega
    have source : ¬ (Function.update s.hostVmInfo target ((s.hostVmInfo target).append target)
        (s.pm vm)).numberOfVms < 0 := by
      by_cases same : s.pm vm = target
      · rw [same,Function.update_self,HostVmInfo.append]
        dsimp only
        omega
      · rw [Function.update_of_ne same]
        omega
    have result := placeVmAnywhere.eq_1 c s ⟨vm, target⟩ stale
    simp only [if_neg inside,if_neg full,if_neg fine,if_neg source] at result
    refine ⟨by omega, _, result, rfl, fun b => ?_⟩
    by_cases was : s.pm vm = b
    · subst was
      by_cases same : target = s.pm vm
      · simp [same,HostVmInfo.pull,HostVmInfo.append]
      · simp [same,Ne.symm same,HostVmInfo.pull]
    · by_cases goes : target = b
      · subst goes
        simp [was,Function.update_of_ne (Ne.symm was),HostVmInfo.append]
      · simp [was,goes,Function.update_of_ne (Ne.symm was),Function.update_of_ne (Ne.symm goes)]

/-- A VM that moves is counted at its new host and no longer at its old one. -/
theorem occupancy_carried {c : Cluster} {s next : State} {placement : VmPlacement}
    (vm : placement.vm < c.vms) (carried : Carried s placement next) (b : Nat) :
    occupancy c next b + (if s.pm placement.vm = b then 1 else 0) =
      occupancy c s b + if placement.targetPm = b then 1 else 0 := by
  have balance := Loads.load_move List.nodup_range (List.mem_range.mpr vm) s.pm (fun _ => 1)
    placement.targetPm b
  rw [Loads.load_one,Loads.load_one] at balance
  rw [occupancy,occupancy,carried.pm]
  exact balance

theorem carried_counted {c : Cluster} {s next : State} {placement : VmPlacement} (right : Counted c s)
    (vm : placement.vm < c.vms) (target : c.HasHost placement.targetPm)
    (room : (s.hostVmInfo placement.targetPm).numberOfVms < maxVmToPm)
    (carried : Carried s placement next) : Counted c next := by
  have known (b : Nat) (concerns : Concerns c next b) : Concerns c s b := by
    rcases concerns with host | ⟨v, bound, there⟩
    · exact .inl host
    · rw [carried.pm] at there
      by_cases same : v = placement.vm
      · rw [same,Function.update_self] at there
        exact .inl (there ▸ target)
      · rw [Function.update_of_ne same] at there
        exact .inr ⟨v, bound, there⟩
  constructor
  · intro b concerns
    have counts := carried.counts b
    have really := congrArg (Nat.cast : Nat → Int) (occupancy_carried vm carried b)
    rw [right.counted b (known b concerns)] at counts
    push_cast at really
    exact add_right_cancel (counts.trans really.symm)
  · intro b concerns
    have within := right.capacity b (known b concerns)
    have counts := carried.counts b
    by_cases there : placement.targetPm = b
    · subst there
      rw [if_pos rfl] at counts
      split at counts <;> omega
    · rw [if_neg there] at counts
      split at counts <;> omega

/-- It leaves the counts right, and on a full target it does nothing at all. -/
theorem call_counted {c : Cluster} {s : State} {call : Call} (right : Counted c s)
    (valid : Valid c call) :
    ∃ next, callStep c s call = some next ∧ Counted c next ∧
      (maxVmToPm ≤ (s.hostVmInfo call.1.targetPm).numberOfVms → next = s) := by
  rcases call_cases right valid with ⟨_, same⟩ | ⟨room, next, taken, carried⟩
  · exact ⟨s, same, right, fun _ => rfl⟩
  · refine ⟨next, taken, carried_counted right valid.1 valid.2 room carried, fun full => ?_⟩
    omega

/-- Every sequence of valid calls goes through, with the counts right and within the limit
after each; a call on a full target leaves the placement, the counts and both counters. -/
theorem host_occupancy {c : Cluster} {s : State} (right : Counted c s) {calls : List Call}
    (valid : ∀ call ∈ calls, Valid c call) :
    (∃ final, Runs.run (callStep c) s calls = some final) ∧
    ∀ past call rest mid next, calls = past ++ call :: rest → Runs.run (callStep c) s past = some mid →
      callStep c mid call = some next →
      Counted c next ∧ (maxVmToPm ≤ (mid.hostVmInfo call.1.targetPm).numberOfVms → next = mid) := by
  have goes (mid : State) (call : Call) (good : Counted c mid) (admitted : Valid c call) :
      ∃ next, callStep c mid call = some next ∧ Counted c next := by
    obtain ⟨next, taken, after, _⟩ := call_counted good admitted
    exact ⟨next, taken, after⟩
  constructor
  · obtain ⟨final, reached, _⟩ := Runs.run_total (callStep c) (Counted c) (Valid c) goes right calls valid
    exact ⟨final, reached⟩
  · rintro past call rest mid next rfl reached taken
    obtain ⟨there, same, good⟩ := Runs.run_total (callStep c) (Counted c) (Valid c) goes right past
      fun earlier member => valid earlier (List.mem_append_left _ member)
    cases reached.symm.trans same
    obtain ⟨_, is, after, full⟩ := call_counted good (valid call (by simp))
    cases taken.symm.trans is
    exact ⟨after, full⟩

/-- Two VMs on the first host, with lists that say otherwise. -/
def bothOnFirst : State := ⟨fun b => ⟨if b = 0 then 2 else 0, fun _ => 7⟩, fun _ => 0, 2, 0⟩

theorem bothOnFirst_counted : Counted twoHosts bothOnFirst := by
  have first (b : Nat) (concerns : Concerns twoHosts bothOnFirst b) : b = 0 ∨ b = 1 := by
    rcases concerns with ⟨_, bound⟩ | ⟨_, _, rfl⟩
    · simp only [twoHosts] at bound
      omega
    · exact .inl rfl
  constructor
  · intro b concerns
    rcases first b concerns with rfl | rfl <;> decide
  · intro b concerns
    rcases first b concerns with rfl | rfl <;> decide

/-- VM 0 moves, is then placed where it is, and comes back. -/
theorem host_occupancy_back : ∃ final,
    Runs.run (callStep twoHosts) bothOnFirst [(⟨0, 1⟩, 0), (⟨0, 1⟩, 7), (⟨0, 0⟩, 0)] = some final := by
  have valid : ∀ call ∈ [(⟨0, 1⟩, 0), (⟨0, 1⟩, 7), (⟨0, 0⟩, 0)], Valid twoHosts call := by
    simp [Valid,Cluster.HasHost,twoHosts]
  exact (host_occupancy bothOnFirst_counted valid).1

end Hpvc.HostBalancer
