import Hpvc.HostPotential

/-! Whether the policy uses free slots. A pair is selected by its cost alone, and `place_vm` then
refuses a target that is full; other pairs are not tried. -/
namespace Hpvc.HostBalancer

open Organizer (CMath exactMath)

section FreeSlots
variable {R : Type} [Field R] [LinearOrder R] (math : CMath R) (c : Cluster) (s : State)
  (vms : Nat → VmUsage R) (cores : Nat → Nat) (m : Nat)

/-- The migration cost of a pair. -/
def pairCost (placement : VmPlacement) : R :=
  migrationCost math c s.maxPmVm (cores placement.targetPm)
    (pmUsage vms (s.hostVmInfo placement.targetPm)) (vms placement.vm)

/-- Half of what a VM costs on host `m`. -/
def halfInhabitancy (v : Nat) : R :=
  inhabitancyCost math c s.maxPmVm (cores m) (pmUsage vms (s.hostVmInfo m)) (vms v) / ((2 : Int) : R)

def Free (placement : VmPlacement) : Prop := (s.hostVmInfo placement.targetPm).numberOfVms < maxVmToPm

instance (placement : VmPlacement) : Decidable (Free s placement) := inferInstanceAs (Decidable (_ < _))

/-- The pairs in the order of the scan of host `m`. -/
def pairs : List VmPlacement :=
  (s.hostVmInfo m).live.flatMap fun v =>
    (List.range' c.firstHost c.numberOfInvolvedHost).map (⟨v, ·⟩)

/-- The last of the cheapest pairs that the stability condition allows. -/
def LastCheapest (placement : VmPlacement) : Prop :=
  ∃ before after, pairs c s m = before ++ placement :: after ∧ Stable math c s vms cores m placement ∧
    (∀ other ∈ before, Stable math c s vms cores m other →
      pairCost math c s vms cores placement ≤ pairCost math c s vms cores other) ∧
    ∀ other ∈ after, Stable math c s vms cores m other →
      pairCost math c s vms cores placement < pairCost math c s vms cores other

/-- The turn of host `m` migrates the pair, and nothing else. -/
def Migrates (placement : VmPlacement) : Prop :=
  ∃ next, policyHost math c vms cores s m = some next ∧
    next.pm = Function.update s.pm placement.vm placement.targetPm ∧ s.pm placement.vm = m

/-- If there is a stable pair with room on its target, the turn migrates a cheapest one of these. -/
def UsesFreeSlots : Prop :=
  (∃ placement, Stable math c s vms cores m placement ∧ Free s placement) →
    ∃ placement, Stable math c s vms cores m placement ∧ Free s placement ∧
      (∀ other, Stable math c s vms cores m other → Free s other →
        pairCost math c s vms cores placement ≤ pairCost math c s vms cores other) ∧
      Migrates math c s vms cores m placement

variable {math c s vms cores m}

theorem mem_pairs {placement : VmPlacement} :
    placement ∈ pairs c s m ↔ placement.vm ∈ (s.hostVmInfo m).live ∧ c.HasHost placement.targetPm := by
  cases placement
  simp [pairs,Cluster.HasHost]

/-- The stability test of the loop, on a pair. -/
def allowed (math : CMath R) (c : Cluster) (s : State) (vms : Nat → VmUsage R) (cores : Nat → Nat) (m : Nat)
    (placement : VmPlacement) : Bool :=
  decide (placement.targetPm ≠ m ∧
    pairCost math c s vms cores placement < halfInhabitancy math c s vms cores m placement.vm)

theorem allowed_iff {placement : VmPlacement} (member : placement ∈ pairs c s m) :
    allowed math c s vms cores m placement = true ↔ Stable math c s vms cores m placement := by
  obtain ⟨listed, target⟩ := mem_pairs.mp member
  simp [allowed,Stable,pairCost,halfInhabitancy,listed,target]

theorem Stable.mem_pairs {placement : VmPlacement} (stable : Stable math c s vms cores m placement) :
    placement ∈ pairs c s m :=
  HostBalancer.mem_pairs.mpr ⟨stable.1, stable.2.1⟩

/-- The body of the inner loop, on a pair. -/
def pairTurn (math : CMath R) (c : Cluster) (s : State) (vms : Nat → VmUsage R) (cores : Nat → Nat) (m : Nat)
    (scan : Scan R) (placement : VmPlacement) : Scan R :=
  if placement.targetPm = m then scan
  else
    if pairCost math c s vms cores placement < halfInhabitancy math c s vms cores m placement.vm then
      if pairCost math c s vms cores placement ≤ scan.minCost then
        ⟨pairCost math c s vms cores placement, some placement, scan.migrationDecisionCount + 1⟩
      else scan
    else scan

theorem scanHost_pairs : scanHost math c s vms cores m =
    (pairs c s m).foldl (pairTurn math c s vms cores m) ⟨math.dblMax, none, 0⟩ := by
  rw [pairs,List.foldl_flatMap]
  simp only [List.foldl_map]
  rfl

variable (math c s vms cores m) in
/-- The two loops are one scan over the pairs. -/
theorem scanHost_pick : ((scanHost math c s vms cores m).minCost, (scanHost math c s vms cores m).placement) =
    Pick.pick Pick.notMore (allowed math c s vms cores m) (pairCost math c s vms cores) some
      (pairs c s m) (math.dblMax, none) := by
  rw [scanHost_pairs]
  refine Pick.foldl_pick _ _ _ _ (fun scan : Scan R => (scan.minCost, scan.placement))
    (pairTurn math c s vms cores m) (fun scan placement => ?_) _ _
  simp only [pairTurn,allowed]
  by_cases own : placement.targetPm = m
  · simp [own]
  · by_cases stable :
        pairCost math c s vms cores placement < halfInhabitancy math c s vms cores m placement.vm
    · by_cases cheap : pairCost math c s vms cores placement ≤ scan.minCost <;>
        simp [own,stable,cheap,Pick.notMore]
    · simp [own,stable]

theorem lastCheapest_iff {placement : VmPlacement} : LastCheapest math c s vms cores m placement ↔
    Pick.Winner Pick.notMore (allowed math c s vms cores m) (pairCost math c s vms cores) (pairs c s m)
      placement := by
  constructor
  · intro ⟨before, after, shape, stable, least, less⟩
    refine ⟨(allowed_iff stable.mem_pairs).mpr stable, before, after, shape, fun other member ok => ?_,
      fun other member ok => ?_⟩
    · have inside : other ∈ pairs c s m := by simp [shape,member]
      exact decide_eq_true (least other member ((allowed_iff inside).mp ok))
    · have inside : other ∈ pairs c s m := by simp [shape,member]
      exact decide_eq_false (not_le.mpr (less other member ((allowed_iff inside).mp ok)))
  · intro won
    obtain ⟨before, after, shape, least, less⟩ := won.first
    have inside : placement ∈ pairs c s m := by simp [shape]
    refine ⟨before, after, shape, (allowed_iff inside).mp won.allowed, fun other member stable => ?_,
      fun other member stable => ?_⟩
    · exact of_decide_eq_true (least other member ((allowed_iff stable.mem_pairs).mpr stable))
    · exact not_le.mp (of_decide_eq_false (less other member ((allowed_iff stable.mem_pairs).mpr stable)))

/-- No stable pair is cheaper. -/
theorem LastCheapest.le {placement other : VmPlacement} (last : LastCheapest math c s vms cores m placement)
    (stable : Stable math c s vms cores m other) :
    pairCost math c s vms cores placement ≤ pairCost math c s vms cores other := by
  obtain ⟨before, after, shape, _, least, less⟩ := last
  have inside := stable.mem_pairs
  rw [shape] at inside
  rcases List.mem_append.mp inside with early | late
  · exact least other early stable
  · rcases List.mem_cons.mp late with rfl | late
    · exact le_rfl
    · exact (less other late stable).le

variable (math c s vms cores m) in
/-- The scan ends on the last of the cheapest pairs, unless that one is above `DBL_MAX`. -/
theorem scan_cases :
    ((scanHost math c s vms cores m).placement = none ∧
      ∀ placement, Stable math c s vms cores m placement → math.dblMax < pairCost math c s vms cores placement) ∨
    ∃ placement, (scanHost math c s vms cores m).placement = some placement ∧
      LastCheapest math c s vms cores m placement ∧ pairCost math c s vms cores placement ≤ math.dblMax := by
  have scanned := congrArg Prod.snd (scanHost_pick math c s vms cores m)
  rcases Pick.pick_winner (allowed math c s vms cores m) (pairCost math c s vms cores) some Pick.notMore_trans
    Pick.notMore_weak (pairs c s m) (math.dblMax, none) with ⟨start, dear⟩ | ⟨placement, found, won, cheap⟩
  · refine .inl ⟨scanned.trans (congrArg Prod.snd start), fun placement stable => ?_⟩
    have above := dear placement stable.mem_pairs ((allowed_iff stable.mem_pairs).mpr stable)
    exact not_le.mp (of_decide_eq_false above)
  · exact .inr ⟨placement, scanned.trans (congrArg Prod.snd found), lastCheapest_iff.mpr won,
      of_decide_eq_true cheap⟩

/-- In accurate lists, the turn of a host migrates what was selected, where there is room. -/
theorem selected_migrates (accurate : Accurate c s) (host : c.HasHost m) {placement : VmPlacement}
    (selected : (scanHost math c s vms cores m).placement = some placement) :
    (Free s placement ∧ Migrates math c s vms cores m placement) ∨
      (¬ Free s placement ∧ policyHost math c vms cores s m = some s) := by
  obtain ⟨listed, target, other, _⟩ := scanHost_stable selected
  obtain ⟨vm, at_m⟩ := (accurate.filed.mem_iff host).mp listed
  have moves : Moves c s placement := ⟨vm, target, at_m ▸ other.symm⟩
  rcases placeVm_cases accurate moves with ⟨full, stays⟩ | ⟨room, next, placed, result⟩
  · exact .inr ⟨not_lt.mpr full, by simp only [policyHost,selected,stays]⟩
  · exact .inl ⟨room, next, by simp only [policyHost,selected,placed], result.pm, at_m⟩

/-- A turn that leaves the state as it is migrates no stable pair. -/
theorem Stable.not_migrates {placement : VmPlacement} (stable : Stable math c s vms cores m placement)
    (stays : policyHost math c vms cores s m = some s) : ¬ Migrates math c s vms cores m placement := by
  intro ⟨next, taken, moved, home⟩
  cases stays.symm.trans taken
  have target := congrFun moved placement.vm
  rw [Function.update_self,home] at target
  exact stable.2.2.1 target.symm

/-- The policy uses the free slots of the hosts exactly where no stable pair has a target with room, or
the pair that is the last of the cheapest has one. -/
theorem free_slots_iff (accurate : Accurate c s) (host : c.HasHost m) :
    UsesFreeSlots math c s vms cores m ↔
      (∀ placement, Stable math c s vms cores m placement → ¬ Free s placement) ∨
      ∃ placement, LastCheapest math c s vms cores m placement ∧ Free s placement ∧
        pairCost math c s vms cores placement ≤ math.dblMax := by
  constructor
  · intro uses
    by_cases some_free : ∃ placement, Stable math c s vms cores m placement ∧ Free s placement
    · right
      obtain ⟨placement, stable, _, _, migrates⟩ := uses some_free
      rcases scan_cases math c s vms cores m with
        ⟨nothing, _⟩ | ⟨chosen, selected, last, cheap⟩
      · exact absurd migrates (stable.not_migrates (by simp only [policyHost,nothing]))
      · rcases selected_migrates accurate host selected with ⟨room, _⟩ | ⟨_, stays⟩
        · exact ⟨chosen, last, room, cheap⟩
        · exact absurd migrates (stable.not_migrates stays)
    · exact .inl fun placement stable free => some_free ⟨placement, stable, free⟩
  · rintro (full | ⟨placement, last, room, cheap⟩) ⟨candidate, stable, free⟩
    · exact absurd free (full candidate stable)
    · rcases scan_cases math c s vms cores m with
        ⟨_, dear⟩ | ⟨chosen, selected, chosen_last, _⟩
      · obtain ⟨_, _, _, allowed, _⟩ := last
        exact absurd cheap (not_le.mpr (dear placement allowed))
      · have same : chosen = placement := (lastCheapest_iff.mp chosen_last).unique (lastCheapest_iff.mp last)
        subst same
        rcases selected_migrates accurate host selected with ⟨_, migrates⟩ | ⟨full, _⟩
        · exact ⟨chosen, scanHost_stable selected, room, fun other stable _ => last.le stable, migrates⟩
        · exact absurd room full

end FreeSlots

/-- Of three VMs on the first host the last one moves. -/
theorem free_slots_three :
    UsesFreeSlots exactMath threeVms threeOnFirst (fun _ => ⟨1, 1, 0⟩) (fun _ => 1) 0 := by
  have host : threeVms.HasHost 0 := ⟨Nat.le_refl 0, Nat.zero_lt_two⟩
  refine (free_slots_iff threeOnFirst_accurate host).mpr (.inr ⟨⟨2, 1⟩, ?_, by decide, by decide +kernel⟩)
  refine ⟨[⟨0, 0⟩, ⟨0, 1⟩, ⟨1, 0⟩, ⟨1, 1⟩, ⟨2, 0⟩], [], rfl, ?_, ?_, by simp⟩
  · exact ⟨by decide, ⟨by decide, by decide⟩, by decide, by decide +kernel⟩
  · have least : ∀ other ∈ [(⟨0, 0⟩ : VmPlacement), ⟨0, 1⟩, ⟨1, 0⟩, ⟨1, 1⟩, ⟨2, 0⟩],
        pairCost exactMath threeVms threeOnFirst (fun _ => ⟨1, 1, 0⟩) (fun _ => 1) ⟨2, 1⟩ ≤
          pairCost exactMath threeVms threeOnFirst (fun _ => ⟨1, 1, 0⟩) (fun _ => 1) other := by
      decide +kernel
    exact fun other member _ => least other member

/-- Three hosts: two VMs on the first, the second is full, and one VM on the third. -/
def fullSecond : Cluster := ⟨4, 8, 0, 3, by decide, by norm_num⟩

def secondFull : State where
  hostVmInfo b := ⟨if b = 0 then 2 else if b = 1 then 5 else if b = 2 then 1 else 0,
    fun i => if b = 0 then i else if b = 1 then i + 2 else 7⟩
  pm v := if v < 2 then 0 else if v < 7 then 1 else 2
  maxPmVm := 3
  migrationCount := 0

/-- VM 1 has much to do, and so has the one on the third host. -/
def unequalLoads (v : Nat) : VmUsage ℚ := ⟨if v = 1 then 27 else if v = 7 then 18 else 3, 1, 0⟩

theorem secondFull_accurate : Accurate fullSecond secondFull := by
  have bound {b : Nat} (host : fullSecond.HasHost b) : b < 3 := by simpa [fullSecond] using host.2
  have homes : ∀ v < 8, secondFull.pm v < 3 := by decide
  have lists : ∀ b < 3, ∀ v ∈ (secondFull.hostVmInfo b).live, v < 8 := by decide
  have counts : ∀ b < 3, ∀ v < 8,
      (secondFull.hostVmInfo b).live.count v = if secondFull.pm v = b then 1 else 0 := by decide
  have sizes : ∀ b < 3, 0 ≤ (secondFull.hostVmInfo b).numberOfVms ∧
      (secondFull.hostVmInfo b).numberOfVms ≤ maxVmToPm := by decide
  exact ⟨⟨fun v vm => ⟨Nat.zero_le _, homes v vm⟩, fun b host => lists b (bound host),
    fun b host v vm => counts b (bound host) v vm⟩, fun b host => (sizes b (bound host)).1,
    fun b host => (sizes b (bound host)).2⟩

/-- VM 0 costs 3 ^ 10 - 3 ^ 9 where it is. On the second host it would cost 3 ^ 6 - 3 ^ 5, but that is full;
the third, at 3 ^ 7 - 3 ^ 6, is not tried. -/
theorem free_slot_unused :
    Accurate fullSecond secondFull ∧ fullSecond.HasHost 0 ∧
      Stable exactMath fullSecond secondFull unequalLoads (fun _ => 1) 0 ⟨0, 2⟩ ∧ Free secondFull ⟨0, 2⟩ ∧
      policyHost exactMath fullSecond unequalLoads (fun _ => 1) secondFull 0 = some secondFull ∧
      ¬ UsesFreeSlots exactMath fullSecond secondFull unequalLoads (fun _ => 1) 0 := by
  have stable : Stable exactMath fullSecond secondFull unequalLoads (fun _ => 1) 0 ⟨0, 2⟩ :=
    ⟨by decide, ⟨by decide, by decide⟩, by decide, by decide +kernel⟩
  have picks : (scanHost exactMath fullSecond secondFull unequalLoads (fun _ => 1) 0).placement.map
      (fun placement => (placement.vm, placement.targetPm)) = some (0, 1) := by decide +kernel
  obtain ⟨⟨vm, target⟩, selected, is⟩ := Option.map_eq_some_iff.mp picks
  cases is
  have stays : policyHost exactMath fullSecond unequalLoads (fun _ => 1) secondFull 0 = some secondFull := by
    simp only [policyHost,selected]
    rfl
  refine ⟨secondFull_accurate, ⟨by decide, by decide⟩, stable, by decide, stays, fun uses => ?_⟩
  obtain ⟨placement, allowed, _, _, migrates⟩ := uses ⟨⟨0, 2⟩, stable, by decide⟩
  exact allowed.not_migrates stays migrates

end Hpvc.HostBalancer
