import Hpvc.OrganizerDecision
import Hpvc.OrganizerPlacementInvariant

/-! The downtime that a round adds to the cost of each PM, against the clusters of the platform. A PM
with the number 10 is in the second cluster, but the round takes it for neither. -/
namespace Hpvc.Organizer

/-- The hosts of `cluster2.xml`; `c-20.me` is the master. -/
def cluster2 : Platform where
  hosts := ["c-0.me", "c-1.me", "c-2.me", "c-3.me", "c-4.me", "c-5.me", "c-6.me", "c-7.me", "c-8.me", "c-9.me",
    "c-10.me", "c-11.me", "c-12.me", "c-13.me", "c-14.me", "c-15.me", "c-16.me", "c-17.me", "c-18.me",
    "c-19.me", "c-20.me"]

/-- `my_cluster_1` has the radical 0-9, `my_cluster_2` the radical 10-20. -/
def clusterId (i : Nat) : Nat := if i < 10 then 1 else 2

def clusterDownTime (params : Params ℚ) (home i : Nat) : ℚ :=
  if clusterId home = clusterId i then params.vmDownTimeServiceSameCluster
  else params.vmDownTimeServiceOtherCluster

/-- What the candidate would cost on a PM: its communication, and its downtime by the clusters. -/
def clusterCost (params : Params ℚ) (m : Matrices ℚ) (s : Placement) (candidate i : Nat) : ℚ :=
  communicationCost params.numberOfVMs m (s.dataOfPMs i) candidate +
    clusterDownTime params (s.pm candidate) i

/-- The PM is in the candidate's cluster, but charged as if it were in the other. -/
def Misjudged (home i : Nat) : Prop := 10 ≤ home ∧ 10 ≤ i ∧ (home = 10 ∨ i = 10)

instance (home i : Nat) : Decidable (Misjudged home i) := inferInstanceAs (Decidable (_ ∧ _))

/-- Among the PMs with room: a misjudged one is cheapest even so, at equal costs the one with the lowest
number; or one that is judged rightly costs no more than those that are misjudged. -/
def Unbiased (params : Params ℚ) (m : Matrices ℚ) (s : Placement) (candidate : Nat) : Prop :=
  (∃ w, HasRoom cluster2 s w ∧ Misjudged (s.pm candidate) w ∧
    ∀ r, HasRoom cluster2 s r → ¬ Misjudged (s.pm candidate) r →
      communicationCost params.numberOfVMs m (s.dataOfPMs w) candidate + params.vmDownTimeServiceOtherCluster <
          clusterCost params m s candidate r ∨
        communicationCost params.numberOfVMs m (s.dataOfPMs w) candidate +
          params.vmDownTimeServiceOtherCluster = clusterCost params m s candidate r ∧ w < r) ∨
  ∃ r, HasRoom cluster2 s r ∧ ¬ Misjudged (s.pm candidate) r ∧
    ∀ w, HasRoom cluster2 s w → Misjudged (s.pm candidate) w →
      clusterCost params m s candidate r ≤ clusterCost params m s candidate w

/-- No PM with room would cost the candidate less than this one. -/
def TrulyCheapest (params : Params ℚ) (m : Matrices ℚ) (s : Placement) (candidate target : Nat) : Prop :=
  ∀ i, HasRoom cluster2 s i → clusterCost params m s candidate target ≤ clusterCost params m s candidate i

/-- The number in a host's name is its index. -/
theorem homPMIndex_cluster2 {s : Placement} {candidate : Nat}
    (inside : s.pm candidate < cluster2.numberOfInvolvedHost) :
    homPMIndex cluster2 s candidate = s.pm candidate := by
  have numbered : ∀ i : Nat, i < 20 →
      (cluster2.hosts[i]?.bind fun name => scanHostNumber name.toList) = some (i : Int) := by
    decide +kernel
  rw [homPMIndex,numbered _ inside]
  rfl

/-- Only PMs of the candidate's own cluster are misjudged. -/
theorem Misjudged.same_cluster {home i : Nat} (wrong : Misjudged home i) : clusterId home = clusterId i := by
  unfold Misjudged at wrong
  rw [clusterId,clusterId,if_neg (by omega),if_neg (by omega)]

/-- The charge is the downtime by the clusters, and the difference of the two where it is misjudged. -/
theorem downTime_eq (params : Params ℚ) (home i : Nat) :
    downTime params (home : Int) i = clusterDownTime params home i +
      if Misjudged home i then params.vmDownTimeServiceOtherCluster - params.vmDownTimeServiceSameCluster
      else 0 := by
  have charged : ((home : Int) < 10 ∧ i < 10 ∨ 10 < (home : Int) ∧ 10 < i) ↔
      clusterId home = clusterId i ∧ ¬ Misjudged home i := by
    unfold clusterId Misjudged
    split <;> split <;> simp <;> omega
  unfold downTime clusterDownTime
  by_cases wrong : Misjudged home i
  · rw [if_neg (fun right => (charged.mp right).2 wrong),if_pos wrong.same_cluster,if_pos wrong]
    ring
  · by_cases same : clusterId home = clusterId i
    · rw [if_pos (charged.mpr ⟨same, wrong⟩),if_pos same,if_neg wrong,add_zero]
    · rw [if_neg (fun right => same (charged.mp right).1),if_neg same,if_neg wrong,add_zero]

section Target
variable {params : Params ℚ} {m : Matrices ℚ} {s : Placement} {candidate : Nat}
  (inside : s.pm candidate < cluster2.numberOfInvolvedHost)
include inside

variable (params m) in
theorem computeNextH_right {i : Nat} (right : ¬ Misjudged (s.pm candidate) i) :
    computeNextH cluster2 params m s candidate i = clusterCost params m s candidate i := by
  rw [computeNextH,homPMIndex_cluster2 inside,downTime_eq,if_neg right,add_zero]
  rfl

variable (params m) in
theorem computeNextH_misjudged {i : Nat} (wrong : Misjudged (s.pm candidate) i) :
    computeNextH cluster2 params m s candidate i =
      communicationCost params.numberOfVMs m (s.dataOfPMs i) candidate + params.vmDownTimeServiceOtherCluster ∧
    computeNextH cluster2 params m s candidate i = clusterCost params m s candidate i +
      (params.vmDownTimeServiceOtherCluster - params.vmDownTimeServiceSameCluster) := by
  rw [computeNextH,homPMIndex_cluster2 inside,downTime_eq,if_pos wrong,clusterCost]
  simp only [clusterDownTime,if_pos wrong.same_cluster]
  constructor <;> ring

/-- The target of the scan is truly cheapest exactly if the round is not biased by the PMs it misjudges. -/
theorem target_cheapest_iff
    (order : params.vmDownTimeServiceSameCluster ≤ params.vmDownTimeServiceOtherCluster) {target : Nat}
    (room : HasRoom cluster2 s target)
    (least : ∀ i, HasRoom cluster2 s i →
      computeNextH cluster2 params m s candidate target ≤ computeNextH cluster2 params m s candidate i ∧
      (computeNextH cluster2 params m s candidate i = computeNextH cluster2 params m s candidate target →
        target ≤ i)) :
    TrulyCheapest params m s candidate target ↔ Unbiased params m s candidate := by
  by_cases wrong : Misjudged (s.pm candidate) target
  · -- A misjudged target is charged too much itself, so it is the cheapest all the more.
    obtain ⟨charge, surplus⟩ := computeNextH_misjudged params m inside wrong
    refine iff_of_true (fun i free => ?_) (.inl ⟨target, room, wrong, fun r free right => ?_⟩)
    · have below := (least i free).1
      by_cases also : Misjudged (s.pm candidate) i
      · rw [surplus,(computeNextH_misjudged params m inside also).2] at below
        linarith
      · rw [surplus,computeNextH_right params m inside also] at below
        linarith
    · obtain ⟨below, tie⟩ := least r free
      rw [← charge,← computeNextH_right params m inside right]
      rcases below.lt_or_eq with less | equal
      · exact .inl less
      · refine .inr ⟨equal, lt_of_le_of_ne (tie equal.symm) ?_⟩
        rintro rfl
        exact right wrong
  · have charge := computeNextH_right params m inside wrong
    constructor
    · exact fun cheapest => .inr ⟨target, room, wrong, fun w free _ => cheapest w free⟩
    · rintro (⟨w, free, also, beats⟩ | ⟨r, free, right, cheap⟩) i free_i
      · -- Then the misjudged PM would have been the target.
        obtain ⟨below, tie⟩ := least w free
        rw [charge,(computeNextH_misjudged params m inside also).1] at below tie
        rcases beats target room wrong with less | ⟨equal, before⟩
        · exact absurd less (not_lt.mpr below)
        · exact absurd before (not_lt.mpr (tie equal))
      · have to_r := (least r free).1
        rw [charge,computeNextH_right params m inside right] at to_r
        by_cases also : Misjudged (s.pm candidate) i
        · exact to_r.trans (cheap i free_i also)
        · have below := (least i free_i).1
          rwa [charge,computeNextH_right params m inside also] at below

end Target

/-- A round that migrates its candidate takes it to a PM that is truly cheapest among those with room
exactly if it is not biased by the PMs that it misjudges. -/
theorem penalty_follows_clusters {params : Params ℚ} {st next : State ℚ} (vms : 0 < params.numberOfVMs)
    (sound : Sound cluster2 params.numberOfVMs st.placement)
    (order : params.vmDownTimeServiceSameCluster ≤ params.vmDownTimeServiceOtherCluster)
    (round : organizationRound cluster2 params st = some next)
    (migrates : next.migrateCounter = st.migrateCounter + 1) {candidate : Nat}
    (is : next.lastCandidateVMIndex = candidate) :
    TrulyCheapest params next.tmp st.placement candidate (next.placement.pm candidate) ↔
      Unbiased params next.tmp st.placement candidate := by
  obtain ⟨_, _, ⟨_, _, _, counter⟩ | ⟨vm, target, decided, moved, last, _⟩⟩ := round_cases round
  · omega
  · have same : vm = candidate := Int.ofNat_inj.mp (last.symm.trans is)
    subst same
    have inside := sound.filed.home_bin vm (decision_free vms decided).1
    obtain ⟨currentH, _, chosen⟩ := decision_call decided
    have arrives : next.placement.pm vm = target := by
      rw [migrateVm_pm moved,Function.update_self]
    rcases chooseTarget_spec
      (show cluster2.numberOfInvolvedHost ≤ 2 ^ 24 by decide) st.placement currentH
      (computeNextH cluster2 params next.tmp st.placement vm) with ⟨nothing, _⟩ | ⟨t, found, room, _, least⟩
    · cases nothing.symm.trans chosen
    · cases found.symm.trans chosen
      rw [arrives]
      exact target_cheapest_iff inside order room least

/-- Three VMs on one PM, with nine messages between any two of them; the other PMs are empty. -/
def threeOn (home : Nat) : State ℚ where
  placement := ⟨fun i => ⟨cluster2.hosts[i]?, if i = home then 3 else 0, id⟩, fun _ => home⟩
  transmission := ⟨fun _ _ => 9, fun _ _ => 3⟩
  tmp := initialMatrices
  lastCandidateVMIndex := -1
  migrateCounter := 0

def threeParams : Params ℚ := ⟨3, 0, 17, 20⟩

theorem threeOn_sound {home : Nat} (inside : home < 20) : Sound cluster2 3 (threeOn home).placement := by
  have sizes (i : Nat) : ((threeOn home).placement.dataOfPMs i).numberOfVMs = if i = home then 3 else 0 := rfl
  refine ⟨fun _ _ => rfl, fun i _ => ?_, fun _ _ => inside, fun b _ v member => ?_, fun b _ v vm => ?_⟩
  · rw [sizes]
    split <;> decide
  · obtain ⟨k, below, rfl⟩ := SlotArray.mem_live.mp member
    change k < if b = home then 3 else 0 at below
    change k < 3
    split at below <;> omega
  · change (SlotArray.live id (if b = home then 3 else 0)).count v = if home = b then 1 else 0
    by_cases here : b = home
    · subst here
      have listed : ∀ v < 3, (SlotArray.live id 3).count v = 1 := by decide
      simpa using listed v vm
    · simp [here,Ne.symm here]

/-- In the first cluster nothing is misjudged. -/
theorem penalty_first_cluster : ∃ next, organizationRound cluster2 threeParams (threeOn 3) = some next ∧
    TrulyCheapest threeParams next.tmp (threeOn 3).placement 0 (next.placement.pm 0) := by
  have moves : (organizationRound cluster2 threeParams (threeOn 3)).map
      (fun s => (s.lastCandidateVMIndex, s.migrateCounter)) = some (0, 1) := by decide +kernel
  obtain ⟨next, round, is⟩ := Option.map_eq_some_iff.mp moves
  obtain ⟨last, counter⟩ := Prod.mk.inj is
  refine ⟨next, round, (penalty_follows_clusters (by decide) (threeOn_sound (by decide))
    (by decide +kernel) round counter last).mpr (.inr ⟨0, ⟨by decide, by decide⟩, by decide,
      fun w _ wrong => ?_⟩)⟩
  exact absurd wrong.1 (by decide)

/-- On PM 10, every PM is charged the downtime of the other cluster: the round goes to PM 0, though
PM 11 is in the cluster and costs as much in communication. -/
theorem penalty_misjudged : ∃ next, organizationRound cluster2 threeParams (threeOn 10) = some next ∧
    Sound cluster2 3 (threeOn 10).placement ∧ next.lastCandidateVMIndex = 0 ∧ next.placement.pm 0 = 0 ∧
      ¬ TrulyCheapest threeParams next.tmp (threeOn 10).placement 0 (next.placement.pm 0) := by
  have moves : (organizationRound cluster2 threeParams (threeOn 10)).map
      (fun s => (s.lastCandidateVMIndex, s.placement.pm 0)) = some (0, 0) := by decide +kernel
  obtain ⟨next, round, is⟩ := Option.map_eq_some_iff.mp moves
  obtain ⟨last, target⟩ := Prod.mk.inj is
  refine ⟨next, round, threeOn_sound (by decide), last, target, fun cheapest => ?_⟩
  have dearer := cheapest 11 ⟨by decide, by decide⟩
  rw [target,(round_cases round).1] at dearer
  revert dearer
  decide +kernel

end Hpvc.Organizer
