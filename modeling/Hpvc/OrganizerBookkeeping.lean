import Hpvc.OrganizerPlacementInvariant
import Hpvc.OrganizerRound

/-! The tracked lists over whole runs of `organization_manager`. The decision of a
round is arbitrary here: whatever the matrices hold and however the arithmetic
rounds, only the test of the target's size protects the lists. -/
namespace Hpvc.Organizer

variable {R : Type} [Add R] [Sub R] [Mul R] [Div R] [IntCast R] [LT R] [DecidableLT R] [Truncate R]

/-- A round that finds these matrices. -/
def roundWith (p : Platform) (params : Params R) (s : State R) (found : Matrices R) :
    Option (State R) :=
  organizationRound p params { s with transmission := found }

/-- Each VM is in the entry of the PM it really is on, once, and in no other entry. -/
structure Bookkept (p : Platform) (noVm : Nat) (s : Placement) : Prop where
  home : ∀ v < noVm, s.pm v < p.numberOfInvolvedHost
  entry : ∀ i < p.numberOfInvolvedHost, (s.dataOfPMs i).pmName = p.hosts[i]?
  once : ∀ v < noVm, (s.dataOfPMs (s.pm v)).live.count v = 1
  only : ∀ v < noVm, ∀ i < p.numberOfInvolvedHost, v ∈ (s.dataOfPMs i).live → i = s.pm v
  capacity : ∀ i < p.numberOfInvolvedHost, (s.dataOfPMs i).numberOfVMs ≤ pmCapacity

theorem Sound.bookkept {p : Platform} {noVm : Nat} {s : Placement} (sound : Sound p noVm s) :
    Bookkept p noVm s where
  home := sound.filed.home_bin
  entry := sound.named
  once v hv := by simpa using sound.filed.count _ (sound.filed.home_bin v hv) v hv
  only v _ i hi member := ((sound.filed.mem_iff hi).mp member).2.symm
  capacity := sound.capacity

theorem round_sound {p : Platform} {params : Params R} (distinct : p.hosts.Nodup)
    (positive : 0 < params.numberOfVMs) {s next : State R}
    (sound : Sound p params.numberOfVMs s.placement)
    (h : organizationRound p params s = some next) : Sound p params.numberOfVMs next.placement := by
  obtain ⟨_, _, ⟨_, same, _⟩ | ⟨vm, target, decided, moved, _⟩⟩ := round_cases h
  · exact same ▸ sound
  · obtain ⟨hv, ht, free⟩ := decision_free positive decided
    obtain ⟨placement, is, kept, _⟩ := migrate_sound p distinct sound hv ht free
    exact Option.some.inj (moved.symm.trans is) ▸ kept

/-- With up to 2^24 PMs every round of an accurate placement runs to its end. -/
theorem round_progress {p : Platform} {params : Params R} (distinct : p.hosts.Nodup)
    (positive : 0 < params.numberOfVMs) (small : p.numberOfInvolvedHost ≤ 2 ^ 24) {s : State R}
    (sound : Sound p params.numberOfVMs s.placement) :
    ∃ next, organizationRound p params s = some next := by
  have inside (nextH : Nat → R) : ∀ i ∈ sortetIndexNextH p.numberOfInvolvedHost nextH,
      i < p.numberOfInvolvedHost := fun i hi =>
    List.mem_range.mp ((sortetIndexNextH_perm small nextH).mem_iff.mp hi)
  have decided : ∃ choice, decision p params (smooth params s.tmp s.transmission) s.placement
      s.lastCandidateVMIndex = some choice := by
    simp [decision,chooseTarget_find _ _ _ _ _ (inside _)]
  obtain ⟨choice, decided⟩ := decided
  cases choice with
  | none => exact ⟨_, by simp only [organizationRound,decided,Option.bind_some]; rfl⟩
  | some call =>
    obtain ⟨hv, ht, free⟩ := decision_free positive decided
    obtain ⟨name, is⟩ := host_exists p (Nat.le_of_lt ht) (Nat.zero_lt_of_lt ht)
    obtain ⟨placement, moved, _⟩ := migrate_sound p distinct sound hv ht free
    exact ⟨_, by simp only [organizationRound,decided,Option.bind_some,is,moved]; rfl⟩

/-- From the placement `launch_master` builds with `q` VMs to a PM, through any number
of rounds with any matrices, the lists stay accurate after every migration; and with
up to 2^24 PMs no round fails. -/
theorem placement_bookkeeping (p : Platform) (params : Params R) (q : Nat)
    (distinct : p.hosts.Nodup) (involved : 0 < p.numberOfInvolvedHost)
    (positive : 1 ≤ q) (fits : q ≤ pmCapacity)
    (vms : params.numberOfVMs = q * p.numberOfInvolvedHost) :
    ∃ start, launchMaster p params.numberOfVMs 0 = some start ∧
      ∀ (s : State R) (rounds : List (Matrices R)), s.placement = start →
        (∀ final, Runs.run (roundWith p params) s rounds = some final →
          Bookkept p params.numberOfVMs final.placement) ∧
        (p.numberOfInvolvedHost ≤ 2 ^ 24 →
          ∃ final, Runs.run (roundWith p params) s rounds = some final) := by
  obtain ⟨start, launched, sound⟩ := launch_sound p positive fits involved
  rw [← vms] at launched sound
  have some_vm : 0 < params.numberOfVMs := vms ▸ Nat.mul_pos positive involved
  refine ⟨start, launched, fun s rounds initial => ⟨fun final reached => ?_, fun small => ?_⟩⟩
  · have kept := Runs.run_invariant (fun t : State R => Sound p params.numberOfVMs t.placement)
      (fun t found next good taken => round_sound (s := { t with transmission := found })
        distinct some_vm good taken) (initial ▸ sound) reached
    exact kept.bookkept
  · obtain ⟨final, reached, _⟩ := Runs.run_total (roundWith p params)
      (fun t : State R => Sound p params.numberOfVMs t.placement) (fun _ => True)
      (fun t found good _ => by
        obtain ⟨next, taken⟩ := round_progress (s := { t with transmission := found })
          distinct some_vm small good
        exact ⟨next, taken, round_sound (s := { t with transmission := found })
          distinct some_vm good taken⟩) (initial ▸ sound) rounds (fun _ _ => trivial)
    exact ⟨final, reached⟩

/-- Three hosts, four VMs: two on each of the first two hosts. -/
theorem placement_bookkeeping_four :
    ∃ start, launchMaster ⟨["c-0.me", "c-1.me", "c-2.me"]⟩ 4 0 = some start ∧
      ∀ (s : State ℚ) (rounds : List (Matrices ℚ)), s.placement = start →
        (∀ final, Runs.run (roundWith ⟨["c-0.me", "c-1.me", "c-2.me"]⟩ ⟨4, 1 / 10, 17, 20⟩) s rounds =
            some final → Bookkept ⟨["c-0.me", "c-1.me", "c-2.me"]⟩ 4 final.placement) ∧
        ((2 : Nat) ≤ 2 ^ 24 →
          ∃ final, Runs.run (roundWith ⟨["c-0.me", "c-1.me", "c-2.me"]⟩ ⟨4, 1 / 10, 17, 20⟩) s rounds =
            some final) :=
  placement_bookkeeping ⟨["c-0.me", "c-1.me", "c-2.me"]⟩ (⟨4, 1 / 10, 17, 20⟩ : Params ℚ) 2
    (by decide) (by decide) (by decide) (by decide) rfl

end Hpvc.Organizer
