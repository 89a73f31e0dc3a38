import Hpvc.HostPlacementLists
import Hpvc.HostPolicy
import Hpvc.Library.Loads
import Hpvc.Library.Rounding
import Mathlib.Algebra.Order.Field.Power
import Mathlib.Order.Interval.Finset.Nat

/-! Why the host load balancer makes progress: each host costs a power of the number of
hosts, and every migration of the policy lowers the sum of these costs. -/
namespace Hpvc.HostBalancer

open Organizer (CMath exactMath)

section Potential
variable {R : Type} [Field R]

/-- What a VM adds to the host it is on: its load and its "net". -/
def vmWeight (vms : Nat → VmUsage R) (v : Nat) : Int × R := ((vms v).load, (vms v).net)

/-- The sums over the VMs that really are on a host. -/
def realUsage (c : Cluster) (vms : Nat → VmUsage R) (pm : Nat → Nat) (b : Nat) : Int × R :=
  Loads.load (List.range c.vms) pm (vmWeight vms) b

def hostCost (math : CMath R) (c : Cluster) (maxPmVm : Int) (cores : Nat → Nat) (b : Nat)
    (usage : Int × R) : R :=
  loadTerm math c maxPmVm (cores b) usage.1 + netTerm math c usage.2

/-- The sum of the costs of all hosts of the cluster. -/
def phi (math : CMath R) (c : Cluster) (maxPmVm : Int) (vms : Nat → VmUsage R) (cores : Nat → Nat)
    (pm : Nat → Nat) : R :=
  Loads.potential (Finset.Ico c.firstHost (c.firstHost + c.numberOfInvolvedHost))
    (hostCost math c maxPmVm cores) (realUsage c vms pm)

theorem pmUsage_eq (vms : Nat → VmUsage R) (hvi : HostVmInfo) :
    pmUsage vms hvi = (hvi.live.map (vmWeight vms)).sum := by
  have scan (l : List Nat) (usage : Int × R) :
      l.foldl (fun usage v => (usage.1 + (vms v).load, usage.2 + (vms v).net)) usage =
        usage + (l.map (vmWeight vms)).sum := by
    induction l generalizing usage with
    | nil => simp
    | cons v rest ih =>
      rw [List.foldl_cons,ih,List.map_cons,List.sum_cons,← add_assoc]
      rfl
  rw [pmUsage,scan]
  exact zero_add _

/-- In accurate lists, the policy adds up what really is on a host. -/
theorem pmUsage_real {c : Cluster} {s : State} (accurate : Accurate c s) (vms : Nat → VmUsage R)
    {b : Nat} (host : c.HasHost b) : pmUsage vms (s.hostVmInfo b) = realUsage c vms s.pm b := by
  have same : (s.hostVmInfo b).live.Perm ((List.range c.vms).filter fun v => s.pm v = b) := by
    apply (List.perm_ext_iff_of_nodup (accurate.filed.nodup host) (List.nodup_range.filter _)).mpr
    intro v
    rw [accurate.filed.mem_iff host]
    simp
  rw [pmUsage_eq,realUsage,Loads.load]
  exact (same.map _).sum_eq

/-- What the policy computes is what the two hosts save and pay. -/
theorem inhabitancyCost_eq (math : CMath R) (c : Cluster) (maxPmVm : Int) (vms : Nat → VmUsage R)
    (cores : Nat → Nat) (m v : Nat) (usage : Int × R) :
    inhabitancyCost math c maxPmVm (cores m) usage (vms v) =
      hostCost math c maxPmVm cores m usage - hostCost math c maxPmVm cores m (usage - vmWeight vms v) := by
  simp only [inhabitancyCost,hostCost,vmWeight,Prod.fst_sub,Prod.snd_sub]
  ring

theorem migrationCost_eq (math : CMath R) (c : Cluster) (maxPmVm : Int) (vms : Nat → VmUsage R)
    (cores : Nat → Nat) (k v : Nat) (usage : Int × R) :
    migrationCost math c maxPmVm (cores k) usage (vms v) =
      hostCost math c maxPmVm cores k (usage + vmWeight vms v) - hostCost math c maxPmVm cores k usage := by
  simp only [migrationCost,hostCost,vmWeight,Prod.fst_add,Prod.snd_add]
  ring

/-- The two hosts of a move are all that matters for the sum. -/
theorem phi_move (math : CMath R) {c : Cluster} {s : State} (maxPmVm : Int) (vms : Nat → VmUsage R)
    (cores : Nat → Nat) {placement : VmPlacement} (moves : Moves c s placement)
    (home : c.HasHost (s.pm placement.vm)) :
    phi math c maxPmVm vms cores s.pm -
        phi math c maxPmVm vms cores (Function.update s.pm placement.vm placement.targetPm) =
      (hostCost math c maxPmVm cores (s.pm placement.vm) (realUsage c vms s.pm (s.pm placement.vm)) -
        hostCost math c maxPmVm cores (s.pm placement.vm)
          (realUsage c vms s.pm (s.pm placement.vm) - vmWeight vms placement.vm)) -
      (hostCost math c maxPmVm cores placement.targetPm
          (realUsage c vms s.pm placement.targetPm + vmWeight vms placement.vm) -
        hostCost math c maxPmVm cores placement.targetPm (realUsage c vms s.pm placement.targetPm)) :=
  Loads.potential_move List.nodup_range (List.mem_range.mpr moves.vm) s.pm (vmWeight vms)
    (hostCost math c maxPmVm cores) (Finset.mem_Ico.mpr home) (Finset.mem_Ico.mpr moves.target)
    moves.other.symm

variable [LinearOrder R] [IsStrictOrderedRing R]

/-- A VM costs a host something. -/
theorem migrationCost_nonneg {math : CMath R}
    (grows : ∀ base x y : R, 1 ≤ base → x ≤ y → math.pow base x ≤ math.pow base y) {c : Cluster}
    (hosts : 1 ≤ c.numberOfInvolvedHost) {maxPmVm : Int} (positive : 0 < maxPmVm) (cores : Nat)
    (usage : Int × R) {vm : VmUsage R} (net : 0 ≤ vm.net) :
    0 ≤ migrationCost math c maxPmVm cores usage vm := by
  have base : (1 : R) ≤ (((c.numberOfInvolvedHost : Nat) : Int) : R) := by exact_mod_cast hosts
  have divisor : (0 : R) ≤ ((maxPmVm * (cores : Int) : Int) : R) := by
    exact_mod_cast mul_nonneg positive.le (Int.natCast_nonneg cores)
  have heavier : (usage.1 : R) ≤ ((usage.1 + vm.load : Int) : R) := by
    have : 0 ≤ vm.load := Int.natCast_nonneg _
    exact_mod_cast Int.le_add_of_nonneg_right this
  have load : loadTerm math c maxPmVm cores usage.1 ≤ loadTerm math c maxPmVm cores (usage.1 + vm.load) :=
    grows _ _ _ base (div_le_div_of_nonneg_right heavier divisor)
  have limit : (0 : R) ≤ maxPmNet := by
    unfold maxPmNet
    positivity
  have nets : netTerm math c usage.2 ≤ netTerm math c (usage.2 + vm.net) :=
    grows _ _ _ base (div_le_div_of_nonneg_right (le_add_of_nonneg_right net) limit)
  unfold migrationCost
  linarith

/-- In accurate lists, with any amounts that are not negative, for any host: the migration that
the policy selects, if there is room for it, takes a VM of this host to another one and lowers
`phi` of the real placement by more than half of what the VM cost, which is positive. `pow`
is only required to grow with the exponent where the base is at least one. -/
theorem migration_lowers_phi {math : CMath R}
    (grows : ∀ base x y : R, 1 ≤ base → x ≤ y → math.pow base x ≤ math.pow base y) {c : Cluster}
    (hosts : 2 ≤ c.numberOfInvolvedHost) {s : State} (accurate : Accurate c s)
    (positive : 0 < s.maxPmVm) {vms : Nat → VmUsage R} (nets : ∀ v < c.vms, 0 ≤ (vms v).net)
    (cores : Nat → Nat) {m : Nat} (host : c.HasHost m) {placement : VmPlacement}
    (selected : (scanHost math c s vms cores m).placement = some placement)
    (room : (s.hostVmInfo placement.targetPm).numberOfVms < maxVmToPm) :
    ∃ next, policyHost math c vms cores s m = some next ∧
      s.pm placement.vm = m ∧ next.pm placement.vm = placement.targetPm ∧ placement.targetPm ≠ m ∧
      0 < inhabitancyCost math c s.maxPmVm (cores m) (pmUsage vms (s.hostVmInfo m)) (vms placement.vm) ∧
      phi math c s.maxPmVm vms cores next.pm +
          inhabitancyCost math c s.maxPmVm (cores m) (pmUsage vms (s.hostVmInfo m)) (vms placement.vm) / 2 <
        phi math c s.maxPmVm vms cores s.pm := by
  obtain ⟨listed, target, other, stable⟩ := scanHost_stable selected
  obtain ⟨vm, at_m⟩ := (accurate.filed.mem_iff host).mp listed
  subst at_m
  have moves : Moves c s placement := ⟨vm, target, other.symm⟩
  rcases placeVm_cases accurate moves with ⟨full, _⟩ | ⟨_, next, placed, result⟩
  · omega
  · have pays := migrationCost_nonneg grows (by omega : 1 ≤ c.numberOfInvolvedHost) positive
      (cores placement.targetPm) (pmUsage vms (s.hostVmInfo placement.targetPm)) (nets _ vm)
    have drop := phi_move math s.maxPmVm vms cores moves host
    rw [← result.pm] at drop
    rw [pmUsage_real accurate vms host,pmUsage_real accurate vms target,inhabitancyCost_eq,
      migrationCost_eq,Int.cast_ofNat] at stable
    rw [pmUsage_real accurate vms target,migrationCost_eq] at pays
    rw [pmUsage_real accurate vms host,inhabitancyCost_eq]
    refine ⟨next, by simp only [policyHost,selected,placed], rfl, ?_, other, ?_, ?_⟩
    · rw [result.pm,Function.update_self]
    · linarith
    · linarith

end Potential

/-- Three VMs with one process each on the first of two hosts. -/
def threeVms : Cluster := ⟨3, 3, 0, 2, Nat.le_succ 2, by norm_num⟩

def threeOnFirst : State := ⟨fun b => ⟨if b = 0 then 3 else 0, id⟩, fun _ => 0, 1, 0⟩

theorem threeOnFirst_accurate : Accurate threeVms threeOnFirst := by
  have bound {b : Nat} (host : threeVms.HasHost b) : b < 2 := by simpa [threeVms] using host.2
  have lists : ∀ b < 2, ∀ v ∈ (threeOnFirst.hostVmInfo b).live, v < 3 := by decide
  have counts : ∀ b < 2, ∀ v < 3, (threeOnFirst.hostVmInfo b).live.count v = if 0 = b then 1 else 0 := by
    decide
  have sizes : ∀ b < 2, 0 ≤ (threeOnFirst.hostVmInfo b).numberOfVms ∧
      (threeOnFirst.hostVmInfo b).numberOfVms ≤ maxVmToPm := by decide
  exact ⟨⟨fun _ _ => ⟨Nat.le_refl 0, Nat.zero_lt_two⟩, fun b host => lists b (bound host),
    fun b host v vm => counts b (bound host) v vm⟩, fun b host => (sizes b (bound host)).1,
    fun b host => (sizes b (bound host)).2⟩

/-- The last of the VMs moves: the first host saves 8 - 4, the second pays 2 - 1. -/
theorem migration_lowers_phi_three : ∃ next,
    policyHost exactMath threeVms (fun _ => ⟨1, 1, 0⟩) (fun _ => 1) threeOnFirst 0 = some next ∧
      next.pm 2 = 1 := by
  have grows (base x y : ℚ) (large : 1 ≤ base) (le : x ≤ y) : exactMath.pow base x ≤ exactMath.pow base y :=
    zpow_le_zpow_right₀ large (Int.floor_mono le)
  have picks : (scanHost exactMath threeVms threeOnFirst (fun _ => ⟨1, 1, 0⟩) (fun _ => 1) 0).placement.map
      (fun placement => (placement.vm, placement.targetPm)) = some (2, 1) := by decide +kernel
  obtain ⟨⟨vm, target⟩, selected, is⟩ := Option.map_eq_some_iff.mp picks
  cases is
  obtain ⟨next, taken, _, moved, _⟩ := migration_lowers_phi grows (by decide : 2 ≤ threeVms.numberOfInvolvedHost)
    threeOnFirst_accurate (by decide) (fun _ _ => le_rfl) (fun _ => 1)
    (⟨Nat.le_refl 0, Nat.zero_lt_two⟩ : threeVms.HasHost 0) selected (by decide)
  exact ⟨next, taken, moved⟩

/-- Powers with whole exponents, rounded to `double`. -/
def roundedMath : CMath Rounding.Double where
  pow b e := ⟨Rounding.double (b.value ^ ⌊e.value⌋)⟩
  dblMax := ⟨(2 ^ 53 - 1) * 2 ^ 971⟩

/-- Two hosts with a VM each. -/
def twoVms : Cluster := ⟨3, 2, 0, 2, Nat.le_succ 2, by norm_num⟩

def oneEach : State := ⟨fun b => ⟨1, fun _ => b⟩, id, 2, 0⟩

/-- The second VM needs sixty times what a host can send. -/
def busyNet (v : Nat) : ℚ := if v = 1 then 7500000000 else 0

theorem oneEach_accurate : Accurate twoVms oneEach := by
  have bound {b : Nat} (host : twoVms.HasHost b) : b < 2 := by simpa [twoVms] using host.2
  have lists : ∀ b < 2, ∀ v ∈ (oneEach.hostVmInfo b).live, v < 2 := by decide
  have counts : ∀ b < 2, ∀ v < 2, (oneEach.hostVmInfo b).live.count v = if v = b then 1 else 0 := by decide
  exact ⟨⟨fun v vm => ⟨Nat.zero_le v, by simpa [twoVms,oneEach] using vm⟩, fun b host => lists b (bound host),
    fun b host v vm => counts b (bound host) v vm⟩, fun _ _ => (by decide : (0 : Int) ≤ 1),
    fun _ _ => (by decide : (1 : Int) ≤ 5)⟩

/-- In the arithmetic of `double` the load is lost beside the net of the second host: the first VM moves
there, although that raises `phi`. -/
theorem migration_raises_phi : Accurate twoVms oneEach ∧ ∃ placement next,
    (scanHost roundedMath twoVms oneEach (fun v => ⟨2, 1, ⟨busyNet v⟩⟩) (fun _ => 1) 0).placement = some placement ∧
    policyHost roundedMath twoVms (fun v => ⟨2, 1, ⟨busyNet v⟩⟩) (fun _ => 1) oneEach 0 = some next ∧
    next.pm placement.vm = placement.targetPm ∧
    phi exactMath twoVms oneEach.maxPmVm (fun v => ⟨2, 1, busyNet v⟩) (fun _ => 1) oneEach.pm <
      phi exactMath twoVms oneEach.maxPmVm (fun v => ⟨2, 1, busyNet v⟩) (fun _ => 1) next.pm := by
  have picks : (scanHost roundedMath twoVms oneEach (fun v => ⟨2, 1, ⟨busyNet v⟩⟩) (fun _ => 1) 0).placement.map
      (fun placement => (placement.vm, placement.targetPm)) = some (0, 1) := by decide +kernel
  obtain ⟨⟨vm, target⟩, selected, is⟩ := Option.map_eq_some_iff.mp picks
  cases is
  have moves : Moves twoVms oneEach ⟨0, 1⟩ := ⟨by decide, ⟨by decide, by decide⟩, by decide⟩
  rcases placeVm_cases oneEach_accurate moves with ⟨full, _⟩ | ⟨_, next, placed, result⟩
  · exact absurd full (by decide)
  · refine ⟨oneEach_accurate, _, next, selected, by simp only [policyHost,selected,placed], ?_, ?_⟩
    · rw [result.pm]
      rfl
    · rw [result.pm]
      decide +kernel

end Hpvc.HostBalancer
