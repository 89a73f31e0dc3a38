import Hpvc.OrganizerPlacementInvariant

/-! `launch_master` for any number of VMs. With fewer VMs than PMs the quota is zero and each VM
goes to a PM of its own; with VMs left over it goes on to the master. -/
namespace Hpvc.Organizer

/-- Every VM is on a PM below the master, and listed by this PM alone; no array is over-full. -/
structure LaunchedInRange (p : Platform) (noVm : Nat) (s : Placement) : Prop where
  capacity : ∀ i < p.numberOfInvolvedHost, (s.dataOfPMs i).numberOfVMs ≤ pmCapacity
  filed : Bins.Accurate (· < noVm) (· < p.numberOfInvolvedHost) s.pm
    fun i => (s.dataOfPMs i).live

theorem Sound.inRange {p : Platform} {noVm : Nat} {s : Placement} (sound : Sound p noVm s) :
    LaunchedInRange p noVm s :=
  ⟨sound.capacity, sound.filed⟩

/-- The loop of `launch_master` after `i` VMs, none to a PM by the division. -/
structure LaunchedSingly (p : Platform) (i : Nat) (s : Launch) : Prop where
  host : s.host = i
  counter : s.currentClusterHostCounter = i
  single : ∀ k, (s.placement.dataOfPMs k).numberOfVMs ≤ 1
  untouched : ∀ k, i < k → (s.placement.dataOfPMs k).numberOfVMs = 0
  filed : Bins.Accurate (· < i) (· < p.numberOfInvolvedHost) s.placement.pm
    fun k => (s.placement.dataOfPMs k).live

theorem launchVm_singly {p : Platform} {i : Nat} {s : Launch} (launched : LaunchedSingly p i s)
    (inside : i + 1 < p.numberOfInvolvedHost) :
    ∃ next, launchVm p 0 s i = some next ∧ LaunchedSingly p (i + 1) next := by
  obtain ⟨name, is⟩ := host_exists p (Nat.le_of_lt inside) (Nat.zero_lt_of_lt inside)
  have next : nextHost 0 s = { s with
      host := i + 1
      currentClusterHostCounter := i + 1
      j := 0 } := by
    rw [nextHost,if_pos (Nat.zero_le _),launched.host,launched.counter]
  refine ⟨_, by simp [launchVm,next,is,getData,inside]; rfl, ?_⟩
  have empty := launched.untouched (i + 1) (Nat.lt_succ_self i)
  refine ⟨rfl, rfl, fun k => ?_, fun k above => ?_, ?_⟩
  · by_cases here : k = i + 1
    · subst k
      simp [empty]
    · simpa [here] using launched.single k
  · simpa [show k ≠ i + 1 by omega] using launched.untouched k (by omega)
  · have added := launched.filed.add (v := i) (t := i + 1)
      (fun k => (Function.update s.placement.dataOfPMs (i + 1)
        (((s.placement.dataOfPMs (i + 1)).push i).setName name) k).live) (Nat.lt_irrefl i) inside ?_
    · have items : (fun x => x < i ∨ x = i) = (· < i + 1) := by
        funext x
        simp
        omega
      simpa [items] using added
    · intro k _
      by_cases here : k = i + 1
      · subst k
        simp
      · simp [here]

theorem launch_run_singly (p : Platform) (i : Nat) (bound : i < p.numberOfInvolvedHost) :
    ∃ s, Runs.run (launchVm p 0) ⟨0, 0, 0, ⟨fun _ => .zero, fun _ => 0⟩⟩ (List.range i) = some s ∧
      LaunchedSingly p i s := by
  induction i with
  | zero =>
    refine ⟨_, rfl, rfl, rfl, ?_, ?_, ⟨by simp, by simp, by simp⟩⟩
    · intro k
      simp [DataOfPM.zero]
    · intro k _
      simp [DataOfPM.zero]
  | succ i ih =>
    obtain ⟨s, reached, launched⟩ := ih (by omega)
    obtain ⟨next, taken, after⟩ := launchVm_singly launched bound
    exact ⟨next, by rw [List.range_succ,Runs.run_snoc,reached]; exact taken, after⟩

/-- With fewer VMs than PMs each VM gets a PM. -/
theorem launch_fewer (p : Platform) {noVm : Nat} (fewer : noVm < p.numberOfInvolvedHost) :
    ∃ s, launchMaster p noVm 0 = some s ∧ LaunchedInRange p noVm s := by
  have involved := Nat.zero_lt_of_lt fewer
  obtain ⟨s, reached, launched⟩ := launch_run_singly p noVm fewer
  obtain ⟨name, is⟩ := host_exists p (i := noVm + 1) fewer involved
  refine ⟨s.placement, ?_, fun i _ => Nat.le_trans (launched.single i) (by decide), launched.filed⟩
  rw [launchMaster,if_neg (Nat.pos_iff_ne_zero.mp involved),Nat.div_eq_of_lt fewer,Nat.zero_mul,reached]
  simp [launched.host,is]

/-- Once every PM has its quota there is no turn more: the next VM would be the master's. -/
theorem launchVm_past {p : Platform} {q : Nat} {s : Launch} (positive : 0 < q)
    (launched : Launched p q (p.numberOfInvolvedHost * q) s) (i : Nat) : launchVm p q s i = none := by
  obtain ⟨_, _, position, room⟩ := nextHost_launched positive launched
  have past : p.numberOfInvolvedHost ≤ (nextHost q s).currentClusterHostCounter := by
    by_contra before
    have less := Nat.mul_le_mul_right q (Nat.succ_le_of_lt (Nat.lt_of_not_le before))
    rw [Nat.succ_mul] at less
    omega
  simp [launchVm,getData,past]

/-- With VMs left over the loop does not end. -/
theorem launch_leftover (p : Platform) {noVm : Nat} (involved : 0 < p.numberOfInvolvedHost)
    (enough : p.numberOfInvolvedHost ≤ noVm) (leftover : ¬ p.numberOfInvolvedHost ∣ noVm) :
    launchMaster p noVm 0 = none := by
  have positive : 0 < noVm / p.numberOfInvolvedHost := Nat.div_pos enough involved
  obtain ⟨s, reached, launched⟩ := launch_run p positive _ (Nat.le_refl _)
  have rest : noVm = p.numberOfInvolvedHost * (noVm / p.numberOfInvolvedHost) +
      ((noVm % p.numberOfInvolvedHost - 1) + 1) := by
    have divided := Nat.div_add_mod noVm p.numberOfInvolvedHost
    have nonzero : noVm % p.numberOfInvolvedHost ≠ 0 := fun is => leftover (Nat.dvd_of_mod_eq_zero is)
    omega
  have split := @List.range_add (p.numberOfInvolvedHost * (noVm / p.numberOfInvolvedHost))
    ((noVm % p.numberOfInvolvedHost - 1) + 1)
  rw [← rest] at split
  rw [launchMaster,if_neg (Nat.pos_iff_ne_zero.mp involved),split,Runs.run_append,Nat.zero_mul,reached,
    Option.bind_some,List.range_succ_eq_map,List.map_cons,Runs.run_cons,launchVm_past positive launched]
  rfl

/-- `launch_master` for cluster 0 stays in range exactly if there are fewer VMs than PMs, or as many on
every PM. -/
theorem launch_in_range {p : Platform} {noVm : Nat} (involved : 0 < p.numberOfInvolvedHost)
    (fits : noVm ≤ pmCapacity * p.numberOfInvolvedHost) :
    (∃ s, launchMaster p noVm 0 = some s ∧ LaunchedInRange p noVm s) ↔
      noVm < p.numberOfInvolvedHost ∨ p.numberOfInvolvedHost ∣ noVm := by
  constructor
  · rintro ⟨s, result, _⟩
    by_contra other
    obtain ⟨enough, leftover⟩ := not_or.mp other
    rw [launch_leftover p involved (Nat.le_of_not_lt enough) leftover] at result
    contradiction
  · rintro (fewer | ⟨q, rfl⟩)
    · exact launch_fewer p fewer
    · rw [Nat.mul_comm] at fits ⊢
      rcases Nat.eq_zero_or_pos q with rfl | positive
      · rw [Nat.zero_mul]
        exact launch_fewer p involved
      · obtain ⟨s, result, sound⟩ := launch_sound p positive (Nat.le_of_mul_le_mul_right fits involved) involved
        exact ⟨s, result, sound.inRange⟩

/-- Two PMs and the master. -/
def twoPMs : Platform := ⟨["c-0.me", "c-1.me", "c-2.me"]⟩

theorem launch_in_range_four : ∃ s, launchMaster twoPMs 4 0 = some s ∧ LaunchedInRange twoPMs 4 s :=
  (launch_in_range (by decide) (by decide)).mpr (.inr (by decide))

/-- Three VMs on two PMs: after one VM each the third is to go to the master, which has no entry. -/
theorem launch_out_of_range :
    0 < twoPMs.numberOfInvolvedHost ∧ 3 ≤ pmCapacity * twoPMs.numberOfInvolvedHost ∧
      launchMaster twoPMs 3 0 = none ∧
      ¬ ∃ s, launchMaster twoPMs 3 0 = some s ∧ LaunchedInRange twoPMs 3 s := by
  have fails : launchMaster twoPMs 3 0 = none := rfl
  refine ⟨by decide, by decide, fails, fun ⟨s, result, _⟩ => ?_⟩
  rw [fails] at result
  contradiction

end Hpvc.Organizer
