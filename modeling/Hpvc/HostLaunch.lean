import Hpvc.HostPlacementLists

/-! The placement that `launch_master` of simgrid-project starts from. The VMs left over by the
division go, one each, to the hosts with an odd number. -/
namespace Hpvc.HostBalancer

/-- A VM of `vm_list`, by the index in its name and the host it was created on. -/
structure LaunchedVm where
  index : Nat
  pm : Nat
  deriving DecidableEq

/-- The next VM index, the cluster's `vm_list`, and the property `host_vm_info` of each host. -/
structure Launch where
  i : Nat
  vmList : List LaunchedVm
  hostVmInfo : Nat → Option HostVmInfo

/-- The inner loop's body for VM `i`, on host `pm`. -/
def launchVm (pm : Nat) (s : List LaunchedVm × HostVmInfo) (i : Nat) : List LaunchedVm × HostVmInfo :=
  (s.1 ++ [⟨i, pm⟩], s.2.append i)

/-- The outer loop's body for host `j`. -/
def launchHost (noVm vmToHost vmPlacementMethod : Nat) (s : Launch) (j : Nat) : Launch :=
  let threshold :=
    if vmPlacementMethod ≠ 0 then
      if j % 2 ≠ 0 then s.i + vmToHost + 1 else s.i + vmToHost
    else s.i + vmToHost
  let indices := List.range' s.i (min threshold noVm - s.i)
  let launched := indices.foldl (launchVm j) (s.vmList, ⟨0, fun _ => 0⟩)
  { i := s.i + indices.length
    vmList := launched.1
    hostVmInfo := Function.update s.hostVmInfo j (some launched.2) }

/-- The part of `launch_master` that creates VMs, on the hosts from number `host` on. Without hosts it
divides by zero. -/
def launchMasterVms (noVm numberOfInvolvedHost host : Nat) : Option Launch :=
  if numberOfInvolvedHost = 0 then none
  else
    let vmToHost := noVm / numberOfInvolvedHost
    let vmPlacementMethod := if noVm % numberOfInvolvedHost ≠ 0 then 1 else 0
    some ((List.range' host numberOfInvolvedHost).foldl (launchHost noVm vmToHost vmPlacementMethod)
      ⟨0, [], fun _ => none⟩)

/-- Every VM is created once, on one of the hosts, and listed by that host and no other; no
host lists more VMs than it may. -/
structure AllLaunched (noVm numberOfInvolvedHost host : Nat) (s : Launch) : Prop where
  indices : s.vmList.map (·.index) = List.range noVm
  placed : ∀ vm ∈ s.vmList, host ≤ vm.pm ∧ vm.pm < host + numberOfInvolvedHost
  listed : ∀ j, host ≤ j → j < host + numberOfInvolvedHost → ∃ hvi, s.hostVmInfo j = some hvi ∧
    hvi.live = (s.vmList.filter (·.pm == j)).map (·.index)
  capacity : ∀ j hvi, s.hostVmInfo j = some hvi → hvi.numberOfVms ≤ maxVmToPm

/-- How many VMs the loop has for host `j`. -/
def quota (vmToHost vmPlacementMethod j : Nat) : Nat :=
  vmToHost + if vmPlacementMethod ≠ 0 ∧ j % 2 ≠ 0 then 1 else 0

/-- Host numbers that are odd, from `host` on. -/
def oddHosts (numberOfInvolvedHost host : Nat) : Nat :=
  (List.range' host numberOfInvolvedHost).countP (· % 2 ≠ 0)

/-- The inner loop appends its indices to both lists. -/
theorem launchVm_fold (pm : Nat) (indices : List Nat) (vms : List LaunchedVm) {hvi : HostVmInfo}
    (counted : 0 ≤ hvi.numberOfVms) {launched : List LaunchedVm × HostVmInfo}
    (result : indices.foldl (launchVm pm) (vms, hvi) = launched) :
    launched.1 = vms ++ indices.map (⟨·, pm⟩) ∧ launched.2.live = hvi.live ++ indices ∧
      launched.2.numberOfVms = hvi.numberOfVms + indices.length := by
  induction indices generalizing vms hvi with
  | nil => cases result; simp
  | cons i rest ih =>
    have next : 0 ≤ (hvi.append i).numberOfVms := by
      simp only [HostVmInfo.append]
      omega
    obtain ⟨created, live, number⟩ := ih (vms ++ [⟨i, pm⟩]) next result
    refine ⟨?_, ?_, ?_⟩
    · rw [created]
      simp
    · rw [live,live_append counted]
      simp
    · rw [number]
      simp only [HostVmInfo.append,List.length_cons]
      omega

/-- A host gets the next VMs, as many as its quota and what is left allow. -/
theorem launchHost_eq (noVm vmToHost method : Nat) (s : Launch) (j : Nat) {count : Nat}
    (counted : count = min (quota vmToHost method j) (noVm - s.i)) :
    ∃ hvi : HostVmInfo, launchHost noVm vmToHost method s j =
        ⟨s.i + count, s.vmList ++ (List.range' s.i count).map (⟨·, j⟩),
          Function.update s.hostVmInfo j (some hvi)⟩ ∧
      hvi.live = List.range' s.i count ∧ hvi.numberOfVms = count := by
  have threshold : (if method ≠ 0 then if j % 2 ≠ 0 then s.i + vmToHost + 1 else s.i + vmToHost
      else s.i + vmToHost) = s.i + quota vmToHost method j := by
    by_cases spread : method = 0 <;> by_cases even : j % 2 = 0 <;> simp [quota,spread,even,Nat.add_assoc]
  have many : min (s.i + quota vmToHost method j) noVm - s.i = count := by omega
  have empty : 0 ≤ (⟨0, fun _ => 0⟩ : HostVmInfo).numberOfVms := Int.le_refl 0
  obtain ⟨created, live, number⟩ := launchVm_fold j (List.range' s.i count) s.vmList empty rfl
  refine ⟨_, ?_, live, by simpa using number⟩
  simp only [launchHost,threshold,many,List.length_range',created]

/-- The outer loop after the hosts `past`, with `total` VMs to place on these. -/
structure Filled (noVm total : Nat) (past : List Nat) (share : Nat → Nat) (s : Launch) : Prop where
  position : s.i = min total noVm
  indices : s.vmList.map (·.index) = List.range s.i
  placed : ∀ vm ∈ s.vmList, vm.pm ∈ past
  others : ∀ j, j ∉ past → s.hostVmInfo j = none
  listed : ∀ j ∈ past, ∃ hvi, s.hostVmInfo j = some hvi ∧
    hvi.live = (s.vmList.filter (·.pm == j)).map (·.index) ∧ hvi.numberOfVms ≤ share j

theorem launchHost_filled {noVm vmToHost method total j : Nat} {past : List Nat} {s : Launch}
    (filled : Filled noVm total past (quota vmToHost method) s) (fresh : j ∉ past) :
    Filled noVm (total + quota vmToHost method j) (past ++ [j]) (quota vmToHost method)
      (launchHost noVm vmToHost method s j) := by
  have position := filled.position
  obtain ⟨hvi, result, live, number⟩ := launchHost_eq noVm vmToHost method s j rfl
  generalize hc : min (quota vmToHost method j) (noVm - s.i) = count at result live number
  rw [result]
  have own : (s.vmList.filter (·.pm == j)) = [] := by
    apply List.filter_eq_nil_iff.mpr
    intro vm member is
    exact fresh (beq_iff_eq.mp is ▸ filled.placed vm member)
  constructor
  · simp only
    omega
  · rw [List.map_append,filled.indices,List.map_map,List.range_eq_range',List.range_eq_range']
    have split := @List.range'_append_1 0 s.i count
    rw [Nat.zero_add] at split
    rw [← split]
    simp [Function.comp_def]
  · intro vm member
    rcases List.mem_append.mp member with earlier | now
    · exact List.mem_append_left _ (filled.placed vm earlier)
    · obtain ⟨i, _, rfl⟩ := List.mem_map.mp now
      simp
  · intro other outside
    rw [List.mem_append,List.mem_singleton,not_or] at outside
    exact (Function.update_of_ne outside.2 ..).trans (filled.others other outside.1)
  · intro other member
    by_cases here : other = j
    · subst here
      refine ⟨hvi, Function.update_self .., ?_, by omega⟩
      rw [live,List.filter_append,own]
      simp [Function.comp_def,List.filter_map]
    · have earlier : other ∈ past := by simpa [here] using member
      obtain ⟨info, is, lists, bound⟩ := filled.listed other earlier
      refine ⟨info, (Function.update_of_ne here ..).trans is, ?_, bound⟩
      rw [lists,List.filter_append]
      simp [Function.comp_def,List.filter_map,Ne.symm here]

theorem oddHosts_succ (n host : Nat) :
    oddHosts (n + 1) host = oddHosts n host + if (host + n) % 2 ≠ 0 then 1 else 0 := by
  simp [oddHosts,List.range'_concat,List.countP_append,List.countP_singleton]

/-- The outer loop over `n` hosts. -/
theorem launch_filled (noVm vmToHost method host n : Nat) :
    Filled noVm (n * vmToHost + if method ≠ 0 then oddHosts n host else 0) (List.range' host n)
      (quota vmToHost method)
      ((List.range' host n).foldl (launchHost noVm vmToHost method) ⟨0, [], fun _ => none⟩) := by
  induction n with
  | zero => exact ⟨by simp [oddHosts], rfl, by simp, by simp, by simp⟩
  | succ n ih =>
    have fresh : host + n ∉ List.range' host n := by simp
    have next := launchHost_filled ih fresh
    rw [List.range'_concat,List.foldl_append,Nat.one_mul]
    have total : (n + 1) * vmToHost + (if method ≠ 0 then oddHosts (n + 1) host else 0) =
        n * vmToHost + (if method ≠ 0 then oddHosts n host else 0) + quota vmToHost method (host + n) := by
      rw [oddHosts_succ,quota,Nat.succ_mul]
      by_cases spread : method = 0
      · simp [spread]
      · simp only [spread,ne_eq,not_false_eq_true,if_true,true_and]
        omega
    rw [total]
    exact next

/-- The quotas of the hosts hold all VMs exactly if the hosts with odd numbers take what is left over. -/
theorem quotas_enough {noVm n odd : Nat} :
    noVm ≤ n * (noVm / n) + (if (if noVm % n ≠ 0 then 1 else 0) ≠ 0 then odd else 0) ↔ noVm % n ≤ odd := by
  have divided := Nat.div_add_mod noVm n
  by_cases exact : noVm % n = 0
  · simp [exact]
    omega
  · simp [exact]
    omega

/-- No host gets more VMs than it may list, where the hosts together may list all. -/
theorem quota_capacity {noVm n : Nat} (positive : 0 < n) (fits : (noVm : Int) ≤ maxVmToPm * n) (j : Nat) :
    (quota (noVm / n) (if noVm % n ≠ 0 then 1 else 0) j : Int) ≤ maxVmToPm := by
  have fits : noVm ≤ 5 * n := by
    simp only [maxVmToPm] at fits
    omega
  have divided := Nat.div_add_mod noVm n
  simp only [maxVmToPm,quota]
  by_cases exact : noVm % n = 0
  · have below : noVm / n ≤ 5 := Nat.div_le_of_le_mul (Nat.mul_comm 5 n ▸ fits)
    simp [exact]
    omega
  · have below : noVm / n < 5 := by
      rw [Nat.div_lt_iff_lt_mul positive]
      rcases Nat.lt_or_eq_of_le fits with less | full
      · exact less
      · rw [full,Nat.mul_mod_left] at exact
        contradiction
    simp only [exact,ne_eq,not_false_eq_true,if_true,Nat.one_ne_zero,true_and]
    split <;> omega

/-- `launch_master` places all VMs exactly if what the division leaves over is at most the number of
hosts with odd numbers. -/
theorem launch_complete {noVm n : Nat} (host : Nat) (positive : 0 < n) (fits : (noVm : Int) ≤ maxVmToPm * n) :
    (∃ s, launchMasterVms noVm n host = some s ∧ AllLaunched noVm n host s) ↔ noVm % n ≤ oddHosts n host := by
  have filled := launch_filled noVm (noVm / n) (if noVm % n ≠ 0 then 1 else 0) host n
  have position := filled.position
  rw [launchMasterVms,if_neg (Nat.pos_iff_ne_zero.mp positive),← quotas_enough]
  constructor
  · intro ⟨s, launched, all⟩
    cases launched
    have names := congrArg List.length (filled.indices.symm.trans all.indices)
    simp only [List.length_range] at names
    omega
  · intro enough
    rw [Nat.min_eq_right enough] at position
    refine ⟨_, rfl, filled.indices.trans (congrArg List.range position), ?_, ?_, ?_⟩
    · intro vm member
      simpa using filled.placed vm member
    · intro j from_host below
      obtain ⟨hvi, is, lists, _⟩ := filled.listed j (List.mem_range'_1.mpr ⟨from_host, below⟩)
      exact ⟨hvi, is, lists⟩
    · intro j hvi is
      by_cases member : j ∈ List.range' host n
      · obtain ⟨info, same, _, bound⟩ := filled.listed j member
        cases same.symm.trans is
        exact Int.le_trans bound (quota_capacity positive fits j)
      · cases (filled.others j member).symm.trans is

/-- Two left over, for hosts 4, 5, 6, 7. -/
theorem launch_complete_spread : ∃ s, launchMasterVms 10 4 4 = some s ∧ AllLaunched 10 4 4 s :=
  (launch_complete 4 (by decide) (by decide)).mpr (by decide)

/-- Two left over, but of hosts 0, 1, 2 only one is odd: VM 4 is never created. -/
theorem launch_incomplete :
    (launchMasterVms 5 3 0).map (·.vmList) = some [⟨0, 0⟩, ⟨1, 1⟩, ⟨2, 1⟩, ⟨3, 2⟩] ∧
      ¬ ∃ s, launchMasterVms 5 3 0 = some s ∧ AllLaunched 5 3 0 s := by
  refine ⟨by decide, fun ⟨s, launched, all⟩ => ?_⟩
  cases launched
  exact absurd all.indices (by decide)

end Hpvc.HostBalancer
