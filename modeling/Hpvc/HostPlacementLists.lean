import Hpvc.HostPlacement

/-! When `place_vm` keeps the lists accurate, and when it does not. -/
namespace Hpvc.HostBalancer
open List

theorem live_append {hvi : HostVmInfo} (counted : 0 ≤ hvi.numberOfVms) (v : Nat) :
    (hvi.append v).live = hvi.live ++ [v] := by
  have next : (hvi.numberOfVms + 1).toNat = hvi.numberOfVms.toNat + 1 := by omega
  simp only [HostVmInfo.live,HostVmInfo.append,next]
  exact SlotArray.live_push _ _ _

@[simp] theorem live_length (hvi : HostVmInfo) : hvi.live.length = hvi.numberOfVms.toNat :=
  SlotArray.live_length _ _

/-- The search finds the place of a VM that is listed once. -/
theorem search_listed {hvi : HostVmInfo} {v i : Nat} (once : hvi.live.Nodup)
    (listed : hvi.live[i]? = some v) : hvi.search v = i := by
  obtain ⟨bound, value⟩ := List.getElem?_eq_some_iff.mp listed
  have inside : i < hvi.numberOfVms.toNat := by simpa using bound
  have here : hvi.vmsIndex i = v := by
    have := SlotArray.live_get hvi.vmsIndex inside
    exact Option.some.inj (this.symm.trans listed)
  unfold HostVmInfo.search
  cases found : (List.range hvi.numberOfVms.toNat).find? fun j => hvi.vmsIndex j == v with
  | none =>
    have := List.find?_eq_none.mp found i (List.mem_range.mpr inside)
    simp [here] at this
  | some j =>
    have bound_j : j < hvi.numberOfVms.toNat := List.mem_range.mp (List.mem_of_find?_eq_some found)
    have same : hvi.live[j]? = some v := by
      have value_j : hvi.vmsIndex j = v := by simpa using List.find?_some found
      rw [← value_j]
      exact SlotArray.live_get hvi.vmsIndex bound_j
    exact (List.getElem?_inj (by simpa using bound_j) once).mp (same.trans listed.symm)

theorem cons_perm_snoc {α : Type} [DecidableEq α] {x z : α} (l : List α) : x :: l ~ l ++ [z] ↔ x = z := by
  rw [(List.perm_append_singleton x l).symm.congr_left,List.perm_append_left_iff]
  simp

/-- The entries behind the VM's place, when `m` bytes were moved down from the next. -/
theorem moved_perm_iff {b b' : Nat → Nat} {m : Nat} (some_moved : 0 < m) (few : m ≤ 5)
    (words : ∀ j < m, b j < 2 ^ 32) (distinct : ∀ j k, j < k → k < m → b j ≠ b k)
    (slot : ∀ j < m, b' j = Bytes.mix (min 4 (m - 4 * j)) (b j) (b (j + 1))) :
    SlotArray.live b' (m - 1) ~ SlotArray.live (fun j => b (j + 1)) (m - 1) ↔ PullsWell b m := by
  have whole (same : 4 ≤ m) : b' 0 = b 1 := by
    rw [slot 0 some_moved,Nat.min_eq_left (by omega)]
    exact Bytes.mix_four (words 0 (by omega)) (words 1 (by omega))
  have kept (j : Nat) (behind : m ≤ 4 * j) (inside : j < m) : b' j = b j := by
    rw [slot j inside,show min 4 (m - 4 * j) = 0 by omega,Bytes.mix_zero]
  interval_cases m
  · simp [SlotArray.live,PullsWell]
  · have entries : SlotArray.live b' 1 = [b' 0] := rfl
    have wanted : SlotArray.live (fun j => b (j + 1)) 1 = [] ++ [b 1] := rfl
    have := words 1 (by omega)
    rw [entries,wanted,cons_perm_snoc,slot 0 some_moved]
    change b 0 / 256 ^ 2 * 256 ^ 2 + b 1 % 256 ^ 2 = b 1 ↔ b 0 / 2 ^ 16 = b 1 / 2 ^ 16
    omega
  · have entries : SlotArray.live b' 2 = b' 0 :: [b' 1] := rfl
    have wanted : SlotArray.live (fun j => b (j + 1)) 2 = [b 1] ++ [b 2] := rfl
    rw [entries,wanted,kept 1 (by omega) (by omega),cons_perm_snoc,slot 0 some_moved]
    rfl
  · -- The VM behind takes the place and keeps its own as well.
    have entries : SlotArray.live b' 3 = [b' 0, b' 1, b' 2] := rfl
    have wanted : SlotArray.live (fun j => b (j + 1)) 3 = [b 1, b 2, b 3] := rfl
    rw [entries,wanted,whole (by omega),kept 1 (by omega) (by omega),kept 2 (by omega) (by omega),
      List.perm_cons]
    apply iff_of_false
    · intro perm
      have member : b 1 ∈ [b 2, b 3] := perm.mem_iff.mp (by simp)
      have := distinct 1 2 (by omega) (by omega)
      have := distinct 1 3 (by omega) (by omega)
      simp_all
    · simp [PullsWell]
  · have entries : SlotArray.live b' 4 = b' 0 :: b' 1 :: [b' 2, b' 3] := rfl
    have wanted : SlotArray.live (fun j => b (j + 1)) 4 = b 1 :: ([b 2, b 3] ++ [b 4]) := rfl
    rw [entries,wanted,whole (by omega),kept 2 (by omega) (by omega),kept 3 (by omega) (by omega),
      List.perm_cons,cons_perm_snoc,slot 1 (by omega)]
    rfl

/-- Deleting by bytes leaves the entries that deleting by words would leave. -/
theorem pullBytes_perm_iff (a : Nat → Nat) (i m : Nat) (some_moved : 0 < m) (few : m ≤ 5)
    (words : ∀ j < i + m, a j < 2 ^ 32) (once : (SlotArray.live a (i + m)).Nodup) :
    SlotArray.live (Bytes.pullBytes i m a) (i + (m - 1)) ~ (SlotArray.live a (i + m)).eraseIdx i ↔
      PullsWell (fun j => a (i + j)) m := by
  have front : SlotArray.live (Bytes.pullBytes i m a) i = SlotArray.live a i :=
    SlotArray.live_congr fun j before => Bytes.pullBytes_before a i m before (words j (by omega))
  have slot (j : Nat) (inside : j < m) : Bytes.pullBytes i m a (i + j) =
      Bytes.mix (min 4 (m - 4 * j)) (a (i + j)) (a (i + (j + 1))) := by
    have := Bytes.pullBytes_slot a i m (Nat.le_add_right i j) (words (i + j) (by omega))
    rwa [Nat.add_sub_cancel_left] at this
  have distinct (j k : Nat) (lt : j < k) (inside : k < m) : a (i + j) ≠ a (i + k) := by
    intro same
    have := (List.getElem?_inj (by simp; omega) once).mp
      ((SlotArray.live_get a (by omega : i + j < i + m)).trans
        (same ▸ (SlotArray.live_get a (by omega : i + k < i + m)).symm))
    omega
  have deleted : (SlotArray.live a (i + m)).eraseIdx i =
      SlotArray.live a i ++ SlotArray.live (fun j => a (i + (j + 1))) (m - 1) := by
    rw [show i + m = i + (1 + (m - 1)) by omega,SlotArray.live_add,
      List.eraseIdx_append_of_length_le (by simp),SlotArray.live_add]
    simp [SlotArray.live,Nat.add_comm 1]
  rw [deleted,SlotArray.live_add,front,List.perm_append_left_iff]
  exact moved_perm_iff some_moved few (fun j inside => words (i + j) (by omega)) distinct slot

theorem Accurate.words {c : Cluster} {s : State} (accurate : Accurate c s) {b : Nat}
    (host : c.HasHost b) {j : Nat} (inside : j < (s.hostVmInfo b).numberOfVms.toNat) :
    (s.hostVmInfo b).vmsIndex j < 2 ^ 32 := by
  have listed := SlotArray.live_get (s.hostVmInfo b).vmsIndex inside
  have vm := accurate.filed.only_items b host _ (List.mem_of_getElem? listed)
  have := c.int_vms
  omega

/-- What the search and the `memmove` do to the list of the host the VM is on. -/
theorem pull_perm_iff {c : Cluster} {s : State} (accurate : Accurate c s) {v i : Nat}
    (vm : v < c.vms) (listed : (s.hostVmInfo (s.pm v)).live[i]? = some v) :
    ((s.hostVmInfo (s.pm v)).pull v).live ~ (s.hostVmInfo (s.pm v)).live.eraseIdx i ↔
      PullsWell (fun j => (s.hostVmInfo (s.pm v)).vmsIndex (i + j))
        ((s.hostVmInfo (s.pm v)).live.length - i) := by
  have home := accurate.filed.home_bin v vm
  have once : (s.hostVmInfo (s.pm v)).live.Nodup := accurate.filed.nodup home
  have counted := accurate.counted _ home
  have capacity := accurate.capacity _ home
  have words := fun j => accurate.words home (j := j)
  obtain ⟨bound, _⟩ := List.getElem?_eq_some_iff.mp listed
  have found := search_listed once listed
  generalize s.hostVmInfo (s.pm v) = hvi at *
  rw [live_length] at bound
  unfold maxVmToPm at capacity
  have size : hvi.numberOfVms.toNat = i + (hvi.numberOfVms.toNat - i) := by omega
  have shorter : (hvi.numberOfVms - 1).toNat = i + (hvi.numberOfVms.toNat - i - 1) := by omega
  have result := pullBytes_perm_iff hvi.vmsIndex i (hvi.numberOfVms.toNat - i) (by omega) (by omega)
    (fun j inside => words j (by omega)) (by rw [← size]; exact once)
  simp only [HostVmInfo.live,HostVmInfo.pull,found,shorter,SlotArray.live_length]
  rw [← size] at result
  exact result

/-- What a call does that finds room on its target. -/
structure Placed (s : State) (placement : VmPlacement) (next : State) : Prop where
  pm : next.pm = Function.update s.pm placement.vm placement.targetPm
  new : next.hostVmInfo placement.targetPm =
    (s.hostVmInfo placement.targetPm).append placement.targetPm
  old : next.hostVmInfo (s.pm placement.vm) = (s.hostVmInfo (s.pm placement.vm)).pull placement.vm
  others : ∀ b, b ≠ placement.targetPm → b ≠ s.pm placement.vm → next.hostVmInfo b = s.hostVmInfo b

theorem placeVm_cases {c : Cluster} {s : State} {placement : VmPlacement} (accurate : Accurate c s)
    (moves : Moves c s placement) :
    (maxVmToPm ≤ (s.hostVmInfo placement.targetPm).numberOfVms ∧ placeVm c s placement = some s) ∨
      ((s.hostVmInfo placement.targetPm).numberOfVms < maxVmToPm ∧
        ∃ next, placeVm c s placement = some next ∧ Placed s placement next) := by
  have target_inside : ¬ c.hosts ≤ placement.targetPm := by
    have := c.inside
    have := moves.target.2
    omega
  by_cases full : maxVmToPm ≤ (s.hostVmInfo placement.targetPm).numberOfVms
  · exact .inl ⟨full, by simp only [placeVm,if_neg target_inside,if_pos full]⟩
  · right
    have room : ¬ (c.vms ≤ placement.vm ∨ (s.hostVmInfo placement.targetPm).numberOfVms < 0) := by
      have := moves.vm
      have := accurate.counted _ moves.target
      omega
    have source : ¬ (s.pm placement.vm = placement.targetPm ∨
        (s.hostVmInfo (s.pm placement.vm)).numberOfVms < 0) := by
      have := accurate.counted _ (accurate.filed.home_bin _ moves.vm)
      have := moves.other
      omega
    have result := placeVm.eq_1 c s placement
    simp only [if_neg target_inside,if_neg full,if_neg room,if_neg source] at result
    refine ⟨by omega, _, result, rfl, ?_, ?_, fun b new old => ?_⟩
    · simp [Function.update_of_ne moves.other.symm]
    · simp
    · simp [new,old]

theorem Accurate.positive {c : Cluster} {s : State} (accurate : Accurate c s) {v : Nat}
    (vm : v < c.vms) : 0 < (s.hostVmInfo (s.pm v)).numberOfVms := by
  have member : v ∈ (s.hostVmInfo (s.pm v)).live :=
    (accurate.filed.mem_iff (accurate.filed.home_bin v vm)).mpr ⟨vm, rfl⟩
  have := List.length_pos_of_mem member
  rw [live_length] at this
  omega

section Placement
variable {c : Cluster} {s next : State} {placement : VmPlacement} (accurate : Accurate c s)
  (moves : Moves c s placement) (placed : Placed s placement next)
include accurate moves placed

theorem placed_target_live : (next.hostVmInfo placement.targetPm).live =
    (s.hostVmInfo placement.targetPm).live ++ [placement.targetPm] := by
  rw [placed.new,live_append (accurate.counted _ moves.target)]

theorem placed_own_number (after : Accurate c next) : placement.targetPm = placement.vm := by
  have once := after.filed.count _ moves.target _ moves.vm
  have absent := accurate.filed.count _ moves.target _ moves.vm
  rw [placed_target_live accurate moves placed,List.count_append,absent,placed.pm] at once
  by_contra differs
  simp [moves.other,differs] at once

/-- What is left on the old host. -/
theorem placed_pulled {i : Nat} (listed : (s.hostVmInfo (s.pm placement.vm)).live[i]? = some placement.vm)
    (after : Accurate c next) : ((s.hostVmInfo (s.pm placement.vm)).pull placement.vm).live ~
      (s.hostVmInfo (s.pm placement.vm)).live.eraseIdx i := by
  have home := accurate.filed.home_bin _ moves.vm
  rw [List.perm_iff_count]
  intro x
  rw [← placed.old]
  by_cases vm : x < c.vms
  · have count := after.filed.count _ home x vm
    have before := accurate.filed.count _ home x vm
    have balance := Bins.count_eraseIdx _ listed x
    rw [count,placed.pm]
    by_cases same : x = placement.vm
    · subst x
      simp [moves.other.symm] at before balance ⊢
      omega
    · simp only [same,if_false,Function.update_of_ne same] at balance ⊢
      omega
  · have unlisted : x ∉ (next.hostVmInfo (s.pm placement.vm)).live := fun member =>
      vm (after.filed.only_items _ home x member)
    have unlisted_before : x ∉ (s.hostVmInfo (s.pm placement.vm)).live := fun member =>
      vm (accurate.filed.only_items _ home x member)
    rw [List.count_eq_zero_of_not_mem unlisted,List.count_eq_zero_of_not_mem fun member =>
      unlisted_before (List.eraseIdx_subset member)]

/-- The numbers of VMs stay in their bounds, whatever is listed. -/
theorem placed_counts (room : (s.hostVmInfo placement.targetPm).numberOfVms < maxVmToPm) {b : Nat}
    (host : c.HasHost b) :
    0 ≤ (next.hostVmInfo b).numberOfVms ∧ (next.hostVmInfo b).numberOfVms ≤ maxVmToPm := by
  have counted := accurate.counted b host
  have capacity := accurate.capacity b host
  by_cases new : b = placement.targetPm
  · subst b
    rw [placed.new]
    simp only [HostVmInfo.append]
    omega
  · by_cases old : b = s.pm placement.vm
    · subst b
      rw [placed.old]
      have := accurate.positive moves.vm
      simp only [HostVmInfo.pull]
      omega
    · rw [placed.others b new old]
      exact ⟨counted, capacity⟩

/-- The lists are accurate after a placement when the appended number is the VM's own
and the old host's list lost just the VM. -/
theorem placed_accurate_iff (room : (s.hostVmInfo placement.targetPm).numberOfVms < maxVmToPm) {i : Nat}
    (listed : (s.hostVmInfo (s.pm placement.vm)).live[i]? = some placement.vm) :
    Accurate c next ↔ placement.targetPm = placement.vm ∧
      ((s.hostVmInfo (s.pm placement.vm)).pull placement.vm).live ~
        (s.hostVmInfo (s.pm placement.vm)).live.eraseIdx i := by
  constructor
  · exact fun after => ⟨placed_own_number accurate moves placed after,
      placed_pulled accurate moves placed listed after⟩
  · rintro ⟨same, perm⟩
    have counts (b : Nat) (host : c.HasHost b) := placed_counts accurate moves placed room host
    refine ⟨?_, fun b host => (counts b host).1, fun b host => (counts b host).2⟩
    rw [placed.pm]
    apply accurate.filed.move moves.vm moves.target
    intro b host x
    by_cases new : b = placement.targetPm
    · subst b
      have extra : [placement.vm].count x = if x = placement.vm then 1 else 0 := by
        by_cases is : x = placement.vm
        · simp [is]
        · simp [is,Ne.symm is]
      rw [placed_target_live accurate moves placed,List.count_append,same,extra]
      simp [same ▸ moves.other]
    · by_cases old : b = s.pm placement.vm
      · subst b
        rw [placed.old,perm.count_eq]
        simpa [moves.other.symm] using Bins.count_eraseIdx _ listed x
      · rw [placed.others b new old]
        simp [Ne.symm new,Ne.symm old]

end Placement

/-- Accurate lists before and after say where every VM's listing went. -/
theorem placed_refiled_iff {c : Cluster} {s next : State} {placement : VmPlacement}
    (accurate : Accurate c s) (moves : Moves c s placement)
    (room : (s.hostVmInfo placement.targetPm).numberOfVms < maxVmToPm)
    (placed : Placed s placement next) : Refiled c s placement next ↔ Accurate c next := by
  refine ⟨fun refiled => refiled.accurate, fun after => ⟨after, fun full => ?_, fun _ => ⟨?_, ?_, ?_⟩, ?_⟩⟩
  · omega
  · simp [placed.pm]
  · rw [after.filed.count _ moves.target _ moves.vm]
    simp [placed.pm]
  · rw [after.filed.mem_iff (accurate.filed.home_bin _ moves.vm),placed.pm]
    simp [moves.other.symm]
  · intro v vm other b host
    rw [after.filed.mem_iff host,accurate.filed.mem_iff host,placed.pm,Function.update_of_ne other]

theorem refiled_iff {c : Cluster} {s : State} {placement : VmPlacement} (accurate : Accurate c s)
    (moves : Moves c s placement) :
    (∃ next, placeVm c s placement = some next ∧ Refiled c s placement next) ↔ Harmless s placement := by
  rcases placeVm_cases accurate moves with ⟨full, stays⟩ | ⟨room, next, is, placed⟩
  · refine iff_of_true ⟨s, stays, accurate, fun _ => rfl, fun room => ?_, fun _ _ _ _ _ => Iff.rfl⟩
      (.inl full)
    omega
  · have home := accurate.filed.home_bin _ moves.vm
    have member := (accurate.filed.mem_iff home).mpr ⟨moves.vm, rfl⟩
    obtain ⟨i, listed⟩ := List.getElem?_of_mem member
    have after : (∃ next, placeVm c s placement = some next ∧ Refiled c s placement next) ↔
        Refiled c s placement next := by simp [is]
    rw [after,placed_refiled_iff accurate moves room placed,
      placed_accurate_iff accurate moves placed room listed,pull_perm_iff accurate moves.vm listed]
    constructor
    · rintro ⟨same, well⟩
      exact .inr ⟨same, i, listed, well⟩
    · rintro (full | ⟨same, j, listed_j, well⟩)
      · omega
      · have bound := (List.getElem?_eq_some_iff.mp listed).1
        have equal := (List.getElem?_inj bound (accurate.filed.nodup home)).mp
          (listed.trans listed_j.symm)
        exact ⟨same, equal ▸ well⟩

/-- Over any sequence of calls from accurate lists: every call refiles its VM exactly
if every call is harmless. -/
theorem place_vm_calls (c : Cluster) (s : State) (accurate : Accurate c s)
    (calls : List VmPlacement) (moves : Runs.Each (placeVm c) s calls (Moves c)) :
    Runs.Each (placeVm c) s calls (fun mid call =>
        ∃ next, placeVm c mid call = some next ∧ Refiled c mid call next) ↔
      Runs.Each (placeVm c) s calls Harmless :=
  Runs.each_iff (Accurate c) (Moves c) (fun _ _ good moved => refiled_iff good moved)
    (fun _ _ _ _ _ ⟨_, is, refiled⟩ taken => Option.some.inj (is.symm.trans taken) ▸ refiled.accurate)
    accurate calls moves

/-- Two hosts, and two VMs on the first of them. -/
def twoHosts : Cluster := ⟨3, 2, 0, 2, by decide, by decide⟩

def firstHostFull : State := ⟨fun b => ⟨if b = 0 then 2 else 0, id⟩, fun _ => 0, 2, 0⟩

theorem firstHostFull_accurate : Accurate twoHosts firstHostFull := by
  have bound {b : Nat} (host : twoHosts.HasHost b) : b < 2 := by simpa [twoHosts] using host.2
  have lists : ∀ b < 2, ∀ v ∈ (firstHostFull.hostVmInfo b).live, v < 2 := by decide
  have counts : ∀ b < 2, ∀ v < 2, (firstHostFull.hostVmInfo b).live.count v = if 0 = b then 1 else 0 := by
    decide
  have sizes : ∀ b < 2, 0 ≤ (firstHostFull.hostVmInfo b).numberOfVms ∧
      (firstHostFull.hostVmInfo b).numberOfVms ≤ maxVmToPm := by decide
  exact ⟨⟨fun _ _ => ⟨Nat.le_refl 0, Nat.zero_lt_two⟩, fun b host => lists b (bound host),
    fun b host v vm => counts b (bound host) v vm⟩, fun b host => (sizes b (bound host)).1,
    fun b host => (sizes b (bound host)).2⟩

/-- VM 0 is moved to the second host: that one lists VM 1 instead, and so does the first. -/
theorem place_vm_misfiles : Accurate twoHosts firstHostFull ∧ Moves twoHosts firstHostFull ⟨0, 1⟩ ∧
    ∃ next, placeVm twoHosts firstHostFull ⟨0, 1⟩ = some next ∧ next.pm 0 = 1 ∧
      (next.hostVmInfo 0).live = [1] ∧ (next.hostVmInfo 1).live = [1] ∧ ¬ Accurate twoHosts next := by
  have moves : Moves twoHosts firstHostFull ⟨0, 1⟩ := ⟨by decide, ⟨by decide, by decide⟩, by decide⟩
  refine ⟨firstHostFull_accurate, moves, _, rfl, by decide, by decide, by decide, fun accurate => ?_⟩
  have filed := accurate.filed.count 1 ⟨by decide, by decide⟩ 0 (by decide)
  revert filed
  decide

/-- Moving VM 1 there is a harmless call: it is the last on its list, and the number of
the host is its own. -/
theorem place_vm_calls_last : Runs.Each (placeVm twoHosts) firstHostFull [⟨1, 1⟩] fun mid call =>
    ∃ next, placeVm twoHosts mid call = some next ∧ Refiled twoHosts mid call next := by
  have moves : Moves twoHosts firstHostFull ⟨1, 1⟩ := ⟨by decide, ⟨by decide, by decide⟩, by decide⟩
  refine (place_vm_calls twoHosts firstHostFull firstHostFull_accurate [⟨1, 1⟩]
    (Runs.each_cons.mpr ⟨moves, fun _ _ => Runs.each_nil _ _ _⟩)).mpr
    (Runs.each_cons.mpr ⟨.inr ⟨rfl, 1, by decide, trivial⟩, fun _ _ => Runs.each_nil _ _ _⟩)

end Hpvc.HostBalancer
