import Hpvc.Library.Bins
import Hpvc.Library.Runs
import Hpvc.Library.SlotArray

/-! Placement bookkeeping of the organizer simulator: `launch_master`, which files the
VMs of a cluster over its PMs, and `migrate_vm`, which moves one. The tracked lists
`dataOfPMs` are kept beside the simulator's own placement `MSG_vm_get_pm`. -/
namespace Hpvc.Organizer

def pmCapacity : Nat := 5

/-- The names in `hosts_dynar`. The last host is the master, the others hold VMs. -/
structure Platform where
  hosts : List String

/-- `NUMBER_OF_INVOLVED_HOST`, with `NUMBER_OF_CLUSTERS` equal to one. -/
def Platform.numberOfInvolvedHost (p : Platform) : Nat := p.hosts.length - 1

/-- `DATA_OF_PM`. The name is NULL until `launch_master` files a first VM. -/
structure DataOfPM where
  pmName : Option String
  numberOfVMs : Nat
  vms : Nat → Nat

def DataOfPM.zero : DataOfPM := ⟨none, 0, fun _ => 0⟩

/-- The first `numberOfVMs` slots. -/
def DataOfPM.live (data : DataOfPM) : List Nat := SlotArray.live data.vms data.numberOfVMs

/-- `data.VMs[data.numberOfVMs] = v; data.numberOfVMs++` -/
def DataOfPM.push (data : DataOfPM) (v : Nat) : DataOfPM :=
  { data with
    vms := Function.update data.vms data.numberOfVMs v
    numberOfVMs := data.numberOfVMs + 1 }

/-- `data.PM_name = MSG_host_get_name(pm)` -/
def DataOfPM.setName (data : DataOfPM) (name : String) : DataOfPM := { data with pmName := some name }

def removeItemFromArray (index : Nat) (array : Nat → Nat) (arraySize : Nat) : Nat → Nat :=
  if arraySize ≤ index then array else SlotArray.shiftDown index (arraySize - 1 - index) array

/-- `dataOfPMs` of the cluster, and for each VM the host it is on. -/
structure Placement where
  dataOfPMs : Nat → DataOfPM
  pm : Nat → Nat

/-- `xbt_dynar_get_as(dataOfPMs[cluster_id], i)`: the library aborts past the end. -/
def getData (p : Platform) (s : Placement) (i : Nat) : Option DataOfPM :=
  if i < p.numberOfInvolvedHost then some (s.dataOfPMs i) else none

/-- The variables of `launch_master`'s loop over the VMs. -/
structure Launch where
  host : Nat
  currentClusterHostCounter : Nat
  j : Nat
  placement : Placement

/-- `if (j >= numberOfVM_perHost)`: go on to the next host. -/
def nextHost (perHost : Nat) (s : Launch) : Launch :=
  if perHost ≤ s.j then
    { s with host := s.host + 1, currentClusterHostCounter := s.currentClusterHostCounter + 1, j := 0 }
  else s

/-- One turn of the loop, for VM `i`; the turn ends with the loop's `++j`. -/
def launchVm (p : Platform) (perHost : Nat) (start : Launch) (i : Nat) : Option Launch :=
  let s := nextHost perHost start
  p.hosts[s.host]?.bind fun name =>
    (getData p s.placement s.currentClusterHostCounter).map fun data =>
      { s with
        j := s.j + 1
        placement :=
          { dataOfPMs := Function.update s.placement.dataOfPMs s.currentClusterHostCounter
              ((data.push i).setName name)
            pm := Function.update s.placement.pm i s.host } }

/-- The placement `launch_master` builds. A platform without PMs is a division by zero;
cluster 0 also needs one more host to put its load balancer on. -/
def launchMaster (p : Platform) (noVm clusterId : Nat) : Option Placement :=
  if p.numberOfInvolvedHost = 0 then none
  else
    (Runs.run (launchVm p (noVm / p.numberOfInvolvedHost))
      ⟨clusterId * p.numberOfInvolvedHost, 0, 0, ⟨fun _ => .zero, fun _ => 0⟩⟩
      (List.range noVm)).bind fun s =>
        if clusterId = 0 then p.hosts[s.host + 1]?.map fun _ => s.placement else some s.placement

/-- The search of `migrate_vm` for the entry of a PM, by name. Comparing with an entry
that has no name yet is a crash. -/
def findPM (s : Placement) (name : String) : List Nat → Option (Option Nat)
  | [] => some none
  | i :: rest => (s.dataOfPMs i).pmName.bind fun pmName =>
      if pmName = name then some (some i) else findPM s name rest

/-- Delete a VM index from the entry of its PM, if it is listed there. -/
def DataOfPM.remove (data : DataOfPM) (v : Nat) : DataOfPM :=
  match (List.range data.numberOfVMs).find? fun j => data.vms j == v with
  | some j =>
    { data with
      vms := removeItemFromArray j data.vms data.numberOfVMs
      numberOfVMs := data.numberOfVMs - 1 }
  | none => data

def removeFromHome (s : Placement) (home : Option Nat) (v : Nat) : Placement :=
  match home with
  | some i => { s with dataOfPMs := Function.update s.dataOfPMs i ((s.dataOfPMs i).remove v) }
  | none => s

/-- `migrate_vm`. The target's entry is read again after the deletion, and nothing here
tests its size. -/
def migrateVm (p : Platform) (s : Placement) (vmIndex targetPM targetPMIndex : Nat) :
    Option Placement :=
  p.hosts[s.pm vmIndex]?.bind fun hostPM =>
    (findPM s hostPM (List.range p.numberOfInvolvedHost)).bind fun home =>
      let s := removeFromHome s home vmIndex
      (getData p s targetPMIndex).map fun data =>
        { dataOfPMs := Function.update s.dataOfPMs targetPMIndex (data.push vmIndex)
          pm := Function.update s.pm vmIndex targetPM }

@[simp] theorem live_push (data : DataOfPM) (v : Nat) : (data.push v).live = data.live ++ [v] :=
  SlotArray.live_push _ _ _

@[simp] theorem push_numberOfVMs (data : DataOfPM) (v : Nat) :
    (data.push v).numberOfVMs = data.numberOfVMs + 1 := rfl

@[simp] theorem push_pmName (data : DataOfPM) (v : Nat) : (data.push v).pmName = data.pmName := rfl

@[simp] theorem live_zero : DataOfPM.zero.live = [] := rfl

@[simp] theorem live_length (data : DataOfPM) : data.live.length = data.numberOfVMs :=
  SlotArray.live_length _ _

@[simp] theorem live_setName (data : DataOfPM) (name : String) :
    (data.setName name).live = data.live := rfl

@[simp] theorem setName_numberOfVMs (data : DataOfPM) (name : String) :
    (data.setName name).numberOfVMs = data.numberOfVMs := rfl

@[simp] theorem setName_pmName (data : DataOfPM) (name : String) :
    (data.setName name).pmName = some name := rfl

@[simp] theorem removeFromHome_pm (s : Placement) (home : Option Nat) (v : Nat) :
    (removeFromHome s home v).pm = s.pm := by
  cases home <;> rfl

/-- A VM that is migrated runs on the target. -/
theorem migrateVm_pm {p : Platform} {s next : Placement} {v targetPM targetPMIndex : Nat}
    (migrated : migrateVm p s v targetPM targetPMIndex = some next) :
    next.pm = Function.update s.pm v targetPM := by
  obtain ⟨hostPM, _, migrated⟩ := Option.bind_eq_some_iff.mp migrated
  obtain ⟨home, _, migrated⟩ := Option.bind_eq_some_iff.mp migrated
  obtain ⟨data, _, rfl⟩ := Option.map_eq_some_iff.mp migrated
  rw [removeFromHome_pm]

/-- Deleting a listed VM shortens the entry by one and takes one `v` off its list. -/
theorem remove_listed (data : DataOfPM) (v : Nat) (member : v ∈ data.live) :
    (data.remove v).numberOfVMs + 1 = data.numberOfVMs ∧ (data.remove v).pmName = data.pmName ∧
      ∀ x, (data.remove v).live.count x + (if x = v then 1 else 0) = data.live.count x := by
  obtain ⟨i, bound, value⟩ := SlotArray.mem_live.mp member
  unfold DataOfPM.remove
  split
  next j found =>
    have inside : j < data.numberOfVMs := List.mem_range.mp (List.mem_of_find?_eq_some found)
    have here : data.vms j = v := by simpa using List.find?_some found
    have deleted : SlotArray.live (removeItemFromArray j data.vms data.numberOfVMs)
        (data.numberOfVMs - 1) = data.live.eraseIdx j := by
      rw [removeItemFromArray,if_neg (Nat.not_le.mpr inside)]
      exact SlotArray.live_shiftDown data.vms inside
    refine ⟨by simp only; omega, rfl, fun x => ?_⟩
    change (SlotArray.live _ _).count x + _ = _
    rw [deleted]
    exact Bins.count_eraseIdx data.live (by rw [← here]; exact SlotArray.live_get _ inside) x
  next missing =>
    have := List.find?_eq_none.mp missing i (List.mem_range.mpr bound)
    simp [value] at this

section Remove
variable {s : Placement} {home v : Nat} (member : v ∈ (s.dataOfPMs home).live) (b : Nat)
include member

theorem removeFromHome_pmName :
    ((removeFromHome s (some home) v).dataOfPMs b).pmName = (s.dataOfPMs b).pmName := by
  by_cases at_home : b = home
  · subst b
    simpa [removeFromHome] using (remove_listed _ v member).2.1
  · simp [removeFromHome,at_home]

theorem removeFromHome_numberOfVMs :
    ((removeFromHome s (some home) v).dataOfPMs b).numberOfVMs + (if home = b then 1 else 0) =
      (s.dataOfPMs b).numberOfVMs := by
  by_cases at_home : home = b
  · subst b
    simpa [removeFromHome] using (remove_listed _ v member).1
  · simp [removeFromHome,at_home,Ne.symm at_home]

/-- Where a VM is listed, `removeFromHome` takes just its entry off that list. -/
theorem removeFromHome_count (x : Nat) :
    ((removeFromHome s (some home) v).dataOfPMs b).live.count x + (if home = b ∧ x = v then 1 else 0) =
      (s.dataOfPMs b).live.count x := by
  by_cases at_home : home = b
  · subst b
    simpa [removeFromHome] using (remove_listed _ v member).2.2 x
  · simp [removeFromHome,at_home,Ne.symm at_home]

end Remove

end Hpvc.Organizer
