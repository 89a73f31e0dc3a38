import Hpvc.Library.Hull
import Hpvc.OrganizerTurnTaking
import Mathlib.Data.Rat.Floor

/-! What bounds the traffic matrices. A rate counts at least the initial message and never more than
a period had, and a latency stays between what was measured: neither average leaves this range, and
the truncation of a rate does not fall below one. -/
namespace Hpvc.Organizer

/-- The durations of all sends from `i` to `j` that have completed. -/
def measured (i j : Nat) (events : List (TrafficEvent ℚ)) : List ℚ :=
  events.flatMap fun
    | .round => []
    | .completion sender receiver startTime endTime ok =>
      if ok = true ∧ sender = i ∧ receiver = j then [endTime - startTime] else []

/-- The largest number of sends from `i` to `j` in one period. -/
def mostSends (i j : Nat) (events : List (TrafficEvent ℚ)) : Nat :=
  (Finset.range (events.length + 1)).sup fun k => (durations i j (events.take k)).length

/-- The entries of the VMs are within what was measured. -/
def Within (n : Nat) (events : List (TrafficEvent ℚ)) (m : Matrices ℚ) : Prop :=
  ∀ i < n, ∀ j < n,
    1 ≤ m.rate i j ∧ m.rate i j ≤ 1 + mostSends i j events ∧
      m.latency i j ∈ Hull.hull initialTransmissionLatency (measured i j events)

/-- A send takes time. -/
def Lasting : TrafficEvent ℚ → Prop
  | .completion _ _ startTime endTime ok => ok = true → startTime < endTime
  | .round => True

theorem measured_append (i j : Nat) (past : List (TrafficEvent ℚ)) (event : TrafficEvent ℚ) :
    measured i j (past ++ [event]) = measured i j past ++ measured i j [event] :=
  List.flatMap_append

theorem measured_pos {i j : Nat} {events : List (TrafficEvent ℚ)} (lasting : ∀ event ∈ events, Lasting event) :
    ∀ duration ∈ measured i j events, 0 < duration := by
  intro duration member
  obtain ⟨event, happened, is⟩ := List.mem_flatMap.mp member
  have lasts := lasting event happened
  cases event with
  | round => cases is
  | completion sender receiver startTime endTime ok =>
    dsimp only at is
    split at is
    next here =>
      rw [List.mem_singleton.mp is]
      exact sub_pos.mpr (lasts here.1)
    next => cases is

theorem durations_le_mostSends (i j : Nat) (events : List (TrafficEvent ℚ)) :
    (durations i j events).length ≤ mostSends i j events := by
  have bound := Finset.le_sup (f := fun k => (durations i j (events.take k)).length)
    (Finset.self_mem_range_succ events.length)
  rw [List.take_length] at bound
  exact bound

theorem mostSends_mono (i j : Nat) (past more : List (TrafficEvent ℚ)) :
    mostSends i j past ≤ mostSends i j (past ++ more) := by
  apply Finset.sup_le
  intro k inside
  have small : k ≤ past.length := Nat.lt_succ_iff.mp (Finset.mem_range.mp inside)
  have bound := Finset.le_sup (f := fun k => (durations i j ((past ++ more).take k)).length)
    (Finset.mem_range.mpr (by simp; omega) : k ∈ Finset.range ((past ++ more).length + 1))
  rw [List.take_append_of_le_length small] at bound
  exact bound

theorem Within.mono {n : Nat} {past more : List (TrafficEvent ℚ)} {m : Matrices ℚ} (within : Within n past m) :
    Within n (past ++ more) m := by
  intro i hi j hj
  obtain ⟨above, below, latency⟩ := within i hi j hj
  have most := mostSends_mono i j past more
  refine ⟨above, by omega, Hull.hull_mono (fun d member => ?_) latency⟩
  unfold measured at member ⊢
  rw [List.flatMap_append]
  exact List.mem_append_left _ member

theorem initial_within (n : Nat) (events : List (TrafficEvent ℚ)) : Within n events initialMatrices := by
  intro i _ j _
  refine ⟨le_rfl, ?_, Hull.mem_hull_init _ _⟩
  simp [initialMatrices,initialTransmissionRate]

/-- A weighted rate is truncated to one between the same bounds. -/
theorem truncated_within {alpha : ℚ} {a b most : Int} (low : 0 ≤ alpha) (high : alpha ≤ 1)
    (first : 1 ≤ a ∧ a ≤ most) (second : 1 ≤ b ∧ b ≤ most) :
    1 ≤ Truncate.toInt (alpha * (a : ℚ) + (((1 : Int) : ℚ) - alpha) * (b : ℚ)) ∧
      Truncate.toInt (alpha * (a : ℚ) + (((1 : Int) : ℚ) - alpha) * (b : ℚ)) ≤ most := by
  have rest : 0 ≤ 1 - alpha := sub_nonneg.mpr high
  have least : (1 : ℚ) ≤ a ∧ (1 : ℚ) ≤ b := ⟨by exact_mod_cast first.1, by exact_mod_cast second.1⟩
  have above : (1 : ℚ) ≤ alpha * a + (1 - alpha) * b := by
    calc (1 : ℚ) = alpha * 1 + (1 - alpha) * 1 := by ring
      _ ≤ alpha * a + (1 - alpha) * b := by
        gcongr
        · exact least.1
        · exact least.2
  have below : alpha * a + (1 - alpha) * b ≤ (most : ℚ) := by
    calc alpha * a + (1 - alpha) * b ≤ alpha * most + (1 - alpha) * most := by
          gcongr
          · exact first.2
          · exact second.2
      _ = most := by ring
  rw [Int.cast_one,toInt_of_nonneg (by linarith)]
  constructor
  · exact Int.le_floor.mpr (by exact_mod_cast above)
  · have floor := Int.floor_le (alpha * (a : ℚ) + (1 - alpha) * b)
    exact_mod_cast floor.trans below

theorem smooth_within {params : Params ℚ} {events : List (TrafficEvent ℚ)} {tmp raw : Matrices ℚ}
    (low : 0 ≤ params.alpha) (high : params.alpha ≤ 1) (old : Within params.numberOfVMs events tmp)
    (new : Within params.numberOfVMs events raw) :
    Within params.numberOfVMs events (smooth params tmp raw) := by
  intro i hi j hj
  obtain ⟨oldAbove, oldBelow, oldLatency⟩ := old i hi j hj
  obtain ⟨newAbove, newBelow, newLatency⟩ := new i hi j hj
  have rate := truncated_within low high ⟨oldAbove, oldBelow⟩ ⟨newAbove, newBelow⟩
  have latency := Hull.mem_hull_weighted low high oldLatency newLatency
  simp only [smooth,overPairs,hi,hj,and_self,if_true]
  refine ⟨rate.1, rate.2, ?_⟩
  rw [Int.cast_one]
  exact latency

theorem clear_within (n : Nat) (events : List (TrafficEvent ℚ)) (raw : Matrices ℚ) :
    Within n events (clear n raw) := by
  intro i hi j hj
  have fresh := initial_within n events i hi j hj
  simpa only [clear,overPairs,hi,hj,and_self,if_true] using fresh

theorem completion_within {n sender receiver : Nat} {startTime endTime : ℚ} {ok : Bool}
    {past : List (TrafficEvent ℚ)} {m next : Matrices ℚ} (within : Within n past m)
    (counted : Measured n (past ++ [.completion sender receiver startTime endTime ok]) next)
    (taken : sendTask ok (vmName 0 sender) (vmName 0 receiver) startTime endTime m = some next) :
    Within n (past ++ [.completion sender receiver startTime endTime ok]) next := by
  cases ok with
  | false =>
    cases taken
    exact within.mono
  | true =>
    intro i hi j hj
    have kept : Within n (past ++ [.completion sender receiver startTime endTime true]) m := within.mono
    obtain ⟨above, _, latency⟩ := kept i hi j hj
    obtain ⟨rate, _⟩ := counted i hi j hj
    have most := durations_le_mostSends i j (past ++ [.completion sender receiver startTime endTime true])
    rw [initialTransmissionRate] at rate
    refine ⟨by omega, by omega, ?_⟩
    obtain ⟨after, is, entries⟩ := sendTask_ok sender receiver startTime endTime m
    cases is.symm.trans taken
    rw [(entries i j).2]
    split
    next here =>
      have positive : (0 : ℚ) < m.rate i j := by
        have one : (1 : ℚ) ≤ m.rate i j := by exact_mod_cast above
        linarith
      rw [Int.cast_add,Int.cast_one]
      apply Hull.mem_hull_average positive latency
      apply Hull.mem_hull_of_mem
      rw [measured_append]
      apply List.mem_append_right
      simp [measured,here]
    next => exact latency

theorem run_within {p : Platform} {params : Params ℚ} (low : 0 ≤ params.alpha) (high : params.alpha ≤ 1)
    {s final : State ℚ} {events : List (TrafficEvent ℚ)} (raw : s.transmission = initialMatrices)
    (smoothed : s.tmp = initialMatrices) (reached : Runs.run (trafficStep p params) s events = some final) :
    Within params.numberOfVMs events final.transmission ∧ Within params.numberOfVMs events final.tmp := by
  apply Runs.run_history (fun past mid => Within params.numberOfVMs past mid.transmission ∧
    Within params.numberOfVMs past mid.tmp) _ _ reached
  · rw [raw,smoothed]
    exact ⟨initial_within _ _, initial_within _ _⟩
  · rintro past mid event next before ⟨transmission, tmp⟩ taken
    cases event with
    | completion sender receiver startTime endTime ok =>
      have counted : Measured params.numberOfVMs
          (past ++ [.completion sender receiver startTime endTime ok]) next.transmission :=
        run_measured raw (by rw [Runs.run_snoc,before]; exact taken)
      refine ⟨completion_within transmission counted (completion_step taken), ?_⟩
      rw [(completion_frame taken).1]
      exact tmp.mono
    | round =>
      obtain ⟨is, cleared, _⟩ := round_cases taken
      rw [is,cleared]
      exact ⟨clear_within _ _ _, smooth_within low high tmp.mono transmission.mono⟩

/-- Every VM has traffic where no rate and no latency is zero. -/
theorem computeH_pos {n : Nat} {m : Matrices ℚ} (rates : ∀ i < n, ∀ j < n, 1 ≤ m.rate i j)
    (latencies : ∀ i < n, ∀ j < n, 0 < m.latency i j) {i : Nat} (inside : i < n) : 0 < computeH n m i := by
  have term {a b : Nat} (ha : a < n) (hb : b < n) : 0 < (m.rate a b : ℚ) * m.latency a b := by
    have rate : (1 : ℚ) ≤ m.rate a b := by exact_mod_cast rates a ha b hb
    exact mul_pos (by linarith) (latencies a ha b hb)
  -- The sum grows from zero with each of the first VMs; there is at least one.
  have grows : ∀ k ≤ n, 0 ≤ computeH k m i ∧ (0 < k → 0 < computeH k m i) := by
    intro k
    induction k with
    | zero => simp [computeH]
    | succ k ih =>
      intro small
      have before := (ih (by omega)).1
      have both := add_pos (term inside (by omega : k < n)) (term (by omega : k < n) inside)
      have sum : computeH (k + 1) m i =
          computeH k m i + (m.rate i k * m.latency i k + m.rate k i * m.latency k i) := by
        simp only [computeH,List.range_succ,List.foldl_append,List.foldl_cons,List.foldl_nil,add_assoc]
      rw [sum]
      exact ⟨by linarith, fun _ => by linarith⟩
  exact (grows n le_rfl).2 (by omega)

theorem initialTransmissionLatency_pos : (0 : ℚ) < initialTransmissionLatency := by
  norm_num [initialTransmissionLatency]

/-- In a run whose sends all take time, every VM has traffic in a round that begins, and with two
VMs one other than the last candidate is found. -/
theorem round_candidate {params : Params ℚ} (low : 0 ≤ params.alpha) (high : params.alpha ≤ 1)
    {events : List (TrafficEvent ℚ)} {s : State ℚ} (raw : Within params.numberOfVMs events s.transmission)
    (smoothed : Within params.numberOfVMs events s.tmp) (lasting : ∀ event ∈ events, Lasting event) :
    let h := computeH params.numberOfVMs (smooth params s.tmp s.transmission)
    (∀ i < params.numberOfVMs, 0 < h i) ∧
      (2 ≤ params.numberOfVMs → ∃ c, findCandidate params.numberOfVMs h s.lastCandidateVMIndex = (h c, c) ∧
        FirstMax params.numberOfVMs h s.lastCandidateVMIndex c) := by
  intro h
  have within := smooth_within low high smoothed raw
  have positive : ∀ i < params.numberOfVMs, 0 < h i := fun i inside =>
    computeH_pos (fun i hi j hj => (within i hi j hj).1)
      (fun i hi j hj => Hull.hull_pos (within i hi j hj).2.2 initialTransmissionLatency_pos
        (measured_pos lasting)) inside
  refine ⟨positive, fun two => ?_⟩
  rcases findCandidate_spec params.numberOfVMs h s.lastCandidateVMIndex with ⟨_, none⟩ | ⟨c, found, first, _⟩
  · -- One of the first two VMs is not the last candidate.
    obtain ⟨i, inside, other⟩ : ∃ i < params.numberOfVMs, (i : Int) ≠ s.lastCandidateVMIndex := by
      by_cases zero : ((0 : Nat) : Int) = s.lastCandidateVMIndex
      · exact ⟨1, by omega, by omega⟩
      · exact ⟨0, by omega, zero⟩
    exact absurd (none i inside other) (not_le.mpr (positive i inside))
  · exact ⟨c, found, first⟩

/-- In every run from the initial matrices, whatever the sends and rounds, both pairs of matrices stay
within what was measured; and where all sends took time, every VM has traffic in every
round, so that with two VMs or more a candidate other than the last is found. -/
theorem matrices_in_hull {p : Platform} {params : Params ℚ} (low : 0 ≤ params.alpha)
    (high : params.alpha ≤ 1) {s final : State ℚ} {events : List (TrafficEvent ℚ)}
    (raw : s.transmission = initialMatrices) (smoothed : s.tmp = initialMatrices)
    (reached : Runs.run (trafficStep p params) s events = some final) :
    Within params.numberOfVMs events final.transmission ∧ Within params.numberOfVMs events final.tmp ∧
    ((∀ event ∈ events, Lasting event) →
      let h := computeH params.numberOfVMs (smooth params final.tmp final.transmission)
      (∀ i < params.numberOfVMs, 0 < h i) ∧
        (2 ≤ params.numberOfVMs →
          ∃ c, findCandidate params.numberOfVMs h final.lastCandidateVMIndex = (h c, c) ∧
            c < params.numberOfVMs ∧ (c : Int) ≠ final.lastCandidateVMIndex)) := by
  obtain ⟨transmission, tmp⟩ := run_within low high raw smoothed reached
  refine ⟨transmission, tmp, fun lasting => ?_⟩
  obtain ⟨positive, candidate⟩ := round_candidate low high transmission tmp lasting
  refine ⟨positive, fun two => ?_⟩
  obtain ⟨c, found, first⟩ := candidate two
  exact ⟨c, found, first.bound, first.other⟩

/-- Two VMs after one round: each of them has traffic, and the second can be moved. -/
theorem matrices_in_hull_two :
    let p : Platform := ⟨["c-0.me", "c-1.me", "c-2.me"]⟩
    let params : Params ℚ := ⟨2, 1 / 10, 17, 20⟩
    let s : State ℚ := ⟨⟨fun i => ⟨p.hosts[i]?, 1, fun _ => i⟩, id⟩, initialMatrices, initialMatrices, 0, 0⟩
    ∃ final, Runs.run (trafficStep p params) s
        [.completion 0 1 0 1 true, .round, .completion 0 1 2 5 true] = some final ∧
      final.tmp.rate 0 1 ≤ 2 ∧
      ∃ c, (findCandidate 2 (computeH 2 (smooth params final.tmp final.transmission))
        final.lastCandidateVMIndex).2 = c ∧ (c : Int) ≠ final.lastCandidateVMIndex := by
  intro p params s
  have runs : (Runs.run (trafficStep p params) s
      [.completion 0 1 0 1 true, .round, .completion 0 1 2 5 true]).isSome = true := by decide +kernel
  obtain ⟨final, reached⟩ := Option.isSome_iff_exists.mp runs
  have low : (0 : ℚ) ≤ params.alpha := by norm_num [params]
  have high : params.alpha ≤ 1 := by norm_num [params]
  obtain ⟨_, tmp, traffic⟩ := matrices_in_hull low high rfl rfl reached
  obtain ⟨_, below, _⟩ := tmp 0 (by decide) 1 (by decide)
  have most : mostSends 0 1 [.completion 0 1 0 1 true, .round, .completion 0 1 2 5 true] = 1 := by
    decide +kernel
  rw [most] at below
  obtain ⟨c, found, _, other⟩ := (traffic (by norm_num [Lasting])).2 le_rfl
  exact ⟨final, reached, below, c, congrArg Prod.snd found, other⟩

end Hpvc.Organizer
