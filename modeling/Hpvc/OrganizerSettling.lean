import Hpvc.Library.PairCosts
import Hpvc.OrganizerBookkeeping
import Hpvc.OrganizerHomeMoves
import Hpvc.OrganizerTurnTaking

/-! The organizer under a steady load, where the rates are always the same and a latency depends on the two PMs
alone. What all traffic costs is then a potential that its migrations lower. -/
namespace Hpvc.Organizer

/-- How many messages one VM sends another in a period, and how long a message takes from one PM to another;
inside a PM no longer than between two. -/
structure SteadyLoad where
  rate : Nat → Nat → Int
  latency : Nat → Nat → ℚ
  rate_nonneg : ∀ i j, 0 ≤ rate i j
  latency_nonneg : ∀ a b, 0 ≤ latency a b
  near : ∀ a b, latency a a + latency b b ≤ latency a b + latency b a

def apart : Placement := ⟨fun i => ⟨["c-0.me", "c-1.me"][i]?, 2 - i, fun k => 2 * i + k⟩, fun v => v / 2⟩

/-- A PM that no VM is on. -/
def HasEmpty (p : Platform) (s : Placement) : Prop := ∃ e < p.numberOfInvolvedHost, (s.dataOfPMs e).numberOfVMs = 0

/-- What each VM has, above what it would have at the initial latency, is more than the threshold and the time
of any migration. -/
def Busy (params : Params ℚ) (m : Matrices ℚ) : Prop :=
  ∀ c < params.numberOfVMs,
    11 / 2 + max params.vmDownTimeServiceSameCluster params.vmDownTimeServiceOtherCluster <
      ((List.range params.numberOfVMs).map fun j => m.rate c j * (m.latency c j - initialTransmissionLatency) +
        m.rate j c * (m.latency j c - initialTransmissionLatency)).sum

/-- Fewer VMs than PMs leave one empty. -/
theorem hasEmpty_of_fewer {p : Platform} {n : Nat} {s : Placement} (filed : Filed p n s)
    (fewer : n < p.numberOfInvolvedHost) : HasEmpty p s := by
  have used : ((Finset.range n).image s.pm).card < (Finset.range p.numberOfInvolvedHost).card := by
    have few := @Finset.card_image_le _ _ (Finset.range n) s.pm _
    simp only [Finset.card_range] at *
    omega
  obtain ⟨e, inside, free⟩ := Finset.exists_mem_notMem_of_card_lt_card used
  have host := Finset.mem_range.mp inside
  refine ⟨e, host, ?_⟩
  rw [← live_length,List.length_eq_zero_iff,List.eq_nil_iff_forall_not_mem]
  intro v listed
  obtain ⟨vm, there⟩ := (filed.mem_iff host).mp listed
  exact free (Finset.mem_image.mpr ⟨v, Finset.mem_range.mpr vm, there⟩)

/-- On an empty PM a VM is estimated at the initial latency. -/
theorem empty_gain {p : Platform} {params : Params ℚ} {s : Placement} {m : Matrices ℚ}
    (filed : Filed p params.numberOfVMs s) (busy : Busy params m) {c e : Nat} (vm : c < params.numberOfVMs)
    (host : e < p.numberOfInvolvedHost) (empty : (s.dataOfPMs e).numberOfVMs = 0) :
    11 / 2 < computeH params.numberOfVMs m c - computeNextH p params m s c e := by
  have nobody : residents params.numberOfVMs s e = [] := by
    rw [List.eq_nil_iff_forall_not_mem]
    intro v resident
    have listed : v ∈ (s.dataOfPMs e).live :=
      (filed.mem_iff host).mpr (by simpa [residents] using resident)
    rw [List.length_eq_zero_iff.mp ((live_length _).trans empty)] at listed
    cases listed
  have time : downTime params (homPMIndex p s c) e ≤
      max params.vmDownTimeServiceSameCluster params.vmDownTimeServiceOtherCluster := by
    unfold downTime
    split
    · exact le_max_left _ _
    · exact le_max_right _ _
  have above : ((List.range params.numberOfVMs).map fun j =>
      m.rate c j * (m.latency c j - initialTransmissionLatency) +
        m.rate j c * (m.latency j c - initialTransmissionLatency)).sum =
      traffic params.numberOfVMs m c - estimate params.numberOfVMs m s c e := by
    unfold traffic estimate
    rw [nobody]
    simp only [meanLatency,if_true]
    induction List.range params.numberOfVMs with
    | nil => simp
    | cons j rest ih =>
      simp only [List.map_cons,List.sum_cons,ih]
      ring
  have enough := busy c vm
  rw [computeH_eq,computeNextH_eq filed m c host]
  linarith

/-- With a PM that is empty, a round among busy VMs calls for a migration. -/
theorem busy_decides {p : Platform} {params : Params ℚ} {s : Placement} {m : Matrices ℚ}
    (small : p.numberOfInvolvedHost ≤ 2 ^ 24) (filed : Filed p params.numberOfVMs s) (busy : Busy params m)
    (rates : ∀ i j, 0 ≤ m.rate i j) (latencies : ∀ i j, 0 ≤ m.latency i j)
    (same : 0 ≤ params.vmDownTimeServiceSameCluster) (other : 0 ≤ params.vmDownTimeServiceOtherCluster)
    (pair : 2 ≤ params.numberOfVMs) (empty : HasEmpty p s) (last : Int) :
    ∃ call, decision p params m s last = some (some call) := by
  obtain ⟨e, host, nobody⟩ := empty
  have room : HasRoom p s e := ⟨host, by rw [nobody]; decide⟩
  have positive (c : Nat) (vm : c < params.numberOfVMs) : 0 < computeH params.numberOfVMs m c := by
    have gain := empty_gain filed busy vm host nobody
    have nonneg := computeNextH_nonneg (p := p) (s := s) rates latencies same other c e
    linarith
  rcases findCandidate_spec params.numberOfVMs (computeH params.numberOfVMs m) last with
    ⟨_, none⟩ | ⟨c, found, first, _⟩
  · -- One of the first two VMs is not the last candidate.
    obtain ⟨c, vm, differs⟩ : ∃ c < params.numberOfVMs, (c : Int) ≠ last := by
      by_cases zero : last = 0
      · exact ⟨1, by omega, by omega⟩
      · exact ⟨0, by omega, by omega⟩
    exact absurd (none c vm differs) (not_le.mpr (positive c vm))
  · have gain := empty_gain filed busy first.bound host nobody
    rcases chooseTarget_spec small s (computeH params.numberOfVMs m c) (computeNextH p params m s c) with
      ⟨_, dear⟩ | ⟨t, chosen, _⟩
    · exact absurd (dear e room) (not_le.mpr gain)
    · refine ⟨(c, t), ?_⟩
      unfold decision
      rw [found]
      dsimp only
      rw [chosen]
      rfl

/-- While some PM is empty, a round in which each VM has more traffic than the threshold and a migration take
never goes without a migration: at an empty PM the organizer expects the initial latency to all VMs, however
far it is. -/
theorem organizer_never_rests {p : Platform} {params : Params ℚ} (distinct : p.hosts.Nodup)
    (small : p.numberOfInvolvedHost ≤ 2 ^ 24) (low : 0 ≤ params.alpha) (high : params.alpha ≤ 1)
    (same : 0 ≤ params.vmDownTimeServiceSameCluster) (other : 0 ≤ params.vmDownTimeServiceOtherCluster)
    (pair : 2 ≤ params.numberOfVMs) {s : State ℚ} (sound : Sound p params.numberOfVMs s.placement)
    (start : NonNeg s.tmp) {rounds : List (Matrices ℚ)} (measured : ∀ found ∈ rounds, NonNeg found)
    (busy : Runs.Each (roundWith p params) s rounds fun mid found =>
      Busy params (smooth params mid.tmp found) ∧ HasEmpty p mid.placement) :
    ∃ final, Runs.run (roundWith p params) s rounds = some final ∧
      final.migrateCounter = s.migrateCounter + rounds.length := by
  induction rounds generalizing s with
  | nil => exact ⟨s, rfl, rfl⟩
  | cons found rest ih =>
    obtain ⟨⟨enough, empty⟩, later⟩ := Runs.each_cons.mp busy
    obtain ⟨nonneg, others⟩ := List.forall_mem_cons.mp measured
    let given : State ℚ := { s with transmission := found }
    have some_vm : 0 < params.numberOfVMs := by omega
    have accurate : Sound p params.numberOfVMs given.placement := sound
    have smoothed := smooth_nonneg low high start nonneg
    obtain ⟨next, taken⟩ := round_progress distinct some_vm small accurate
    have kept := round_sound distinct some_vm accurate taken
    obtain ⟨call, decided⟩ := busy_decides small sound.filed enough smoothed.rate smoothed.latency same other pair
      empty s.lastCandidateVMIndex
    obtain ⟨tmp, _, ⟨nothing, _⟩ | ⟨_, _, _, _, _, counter⟩⟩ := round_cases taken
    · rw [tmp] at nothing
      cases decided.symm.trans nothing
    · have counted : next.migrateCounter = s.migrateCounter + 1 := counter
      obtain ⟨final, reached, count⟩ := ih kept (tmp ▸ smoothed) others (later next taken)
      refine ⟨final, Runs.run_step taken reached, ?_⟩
      rw [count,counted,List.length_cons]
      omega

/-- Three PMs for two VMs. -/
def threePMsAndMaster : Platform := ⟨["c-0.me", "c-1.me", "c-2.me", "c-3.me"]⟩

def oneEach : Placement := ⟨fun i => ⟨["c-0.me", "c-1.me", "c-2.me"][i]?, 1 - i / 2, fun _ => i⟩, id⟩

theorem oneEach_sound : Sound threePMsAndMaster 2 oneEach := by
  have items : ∀ b < 3, ∀ v ∈ (oneEach.dataOfPMs b).live, v < 2 := by decide
  have counts : ∀ b < 3, ∀ v < 2, (oneEach.dataOfPMs b).live.count v = if oneEach.pm v = b then 1 else 0 := by decide
  refine ⟨by decide, by decide, ⟨fun v vm => ?_, items, counts⟩⟩
  exact Nat.lt_trans vm (by decide)

def twoVMs : Params ℚ := ⟨2, 0, 17, 20⟩

/-- Ten messages from each VM to each, all of one second. -/
def busyPeriod : Matrices ℚ := ⟨fun _ _ => 10, fun _ _ => 1⟩

def oneEachStart : State ℚ := ⟨oneEach, initialMatrices, initialMatrices, -1, 0⟩

theorem busyPeriod_busy (tmp : Matrices ℚ) : Busy twoVMs (smooth twoVMs tmp busyPeriod) := by
  intro c vm
  have pair : c = 0 ∨ c = 1 := by
    simp only [twoVMs] at vm
    omega
  rcases pair with rfl | rfl <;>
    norm_num [busyPeriod,twoVMs,smooth,overPairs,Truncate.toInt,initialTransmissionLatency,List.range_succ]

/-- A hundred such periods make a hundred migrations. -/
theorem organizer_never_rests_hundred : ∃ final,
    Runs.run (roundWith threePMsAndMaster twoVMs) oneEachStart (List.replicate 100 busyPeriod) = some final ∧
      final.migrateCounter = 100 := by
  have nonneg : NonNeg busyPeriod := ⟨fun _ _ => by norm_num [busyPeriod], fun _ _ => by norm_num [busyPeriod]⟩
  have same (found : Matrices ℚ) (member : found ∈ List.replicate 100 busyPeriod) : found = busyPeriod :=
    List.eq_of_mem_replicate member
  have sound : Sound threePMsAndMaster twoVMs.numberOfVMs oneEachStart.placement := oneEach_sound
  have busy : Runs.Each (roundWith threePMsAndMaster twoVMs) oneEachStart (List.replicate 100 busyPeriod)
      fun mid found => Busy twoVMs (smooth twoVMs mid.tmp found) ∧ HasEmpty threePMsAndMaster mid.placement := by
    intro past found rest mid split reached
    have kept := Runs.run_invariant (fun t : State ℚ => Sound threePMsAndMaster twoVMs.numberOfVMs t.placement)
      (fun t found next good taken => by
        let given : State ℚ := { t with transmission := found }
        have accurate : Sound threePMsAndMaster twoVMs.numberOfVMs given.placement := good
        exact round_sound (by decide) (by decide) accurate taken) sound reached
    rw [same found (by simp [split])]
    exact ⟨busyPeriod_busy mid.tmp, hasEmpty_of_fewer kept.filed (by decide)⟩
  obtain ⟨final, reached, counted⟩ := organizer_never_rests (by decide) (by decide) (by norm_num [twoVMs])
    (by norm_num [twoVMs]) (by norm_num [twoVMs]) (by norm_num [twoVMs]) (by decide) sound
    initialMatrices_nonneg (fun found member => same found member ▸ nonneg) busy
  exact ⟨final, reached, by rw [counted,List.length_replicate]; rfl⟩

end Hpvc.Organizer
