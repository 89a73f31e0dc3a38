import Hpvc.OrganizerDecision
import Hpvc.OrganizerTraffic

/-! Why no VM is moved twice in a row. The scan for a candidate leaves out the VM that was
moved last, but it starts at VM 0 with no traffic; this start never gains enough, as
no entry of the matrices ever becomes negative. -/
namespace Hpvc.Organizer

theorem initialMatrices_nonneg : NonNeg initialMatrices where
  rate i j := by simp [initialMatrices,initialTransmissionRate]
  latency i j := by norm_num [initialMatrices,initialTransmissionLatency]

theorem overPairs_cases {n : Nat} {new old : Nat → Nat → α} {property : α → Prop}
    (fresh : ∀ i j, property (new i j)) (kept : ∀ i j, property (old i j)) (i j : Nat) :
    property (overPairs n new old i j) := by
  unfold overPairs
  split
  · exact fresh i j
  · exact kept i j

/-- A value that is not negative is truncated to one that is not. -/
theorem toInt_nonneg {q : ℚ} (nonneg : 0 ≤ q) : 0 ≤ Truncate.toInt q :=
  Int.tdiv_nonneg (Rat.num_nonneg.mpr nonneg) (Int.natCast_nonneg _)

theorem weighted_nonneg {alpha x y : ℚ} (low : 0 ≤ alpha) (high : alpha ≤ 1) (hx : 0 ≤ x) (hy : 0 ≤ y) :
    0 ≤ alpha * x + (((1 : Int) : ℚ) - alpha) * y := by
  have rest : 0 ≤ ((1 : Int) : ℚ) - alpha := by
    push_cast
    linarith
  exact add_nonneg (mul_nonneg low hx) (mul_nonneg rest hy)

theorem smooth_nonneg {params : Params ℚ} (low : 0 ≤ params.alpha) (high : params.alpha ≤ 1)
    {tmp raw : Matrices ℚ} (old : NonNeg tmp) (new : NonNeg raw) : NonNeg (smooth params tmp raw) where
  rate := overPairs_cases (fun i j => toInt_nonneg (weighted_nonneg low high
    (by exact_mod_cast old.rate i j) (by exact_mod_cast new.rate i j))) old.rate
  latency := overPairs_cases (fun i j => weighted_nonneg low high (old.latency i j) (new.latency i j))
    old.latency

theorem clear_nonneg (n : Nat) {raw : Matrices ℚ} (old : NonNeg raw) : NonNeg (clear n raw) where
  rate := overPairs_cases initialMatrices_nonneg.rate old.rate
  latency := overPairs_cases initialMatrices_nonneg.latency old.latency

/-- A send that took some time adds to the matrices. -/
theorem sendTask_nonneg {sender receiver : Nat} {startTime endTime : ℚ} {ok : Bool}
    {m next : Matrices ℚ} (old : NonNeg m) (duration : startTime ≤ endTime)
    (sent : sendTask ok (vmName 0 sender) (vmName 0 receiver) startTime endTime m = some next) :
    NonNeg next := by
  cases ok with
  | false =>
    cases sent
    exact old
  | true =>
    obtain ⟨after, is, entries⟩ := sendTask_ok sender receiver startTime endTime m
    cases is.symm.trans sent
    constructor
    · intro i j
      have before := old.rate i j
      rw [(entries i j).1]
      split <;> omega
    · intro i j
      rw [(entries i j).2]
      split
      · have rate : (0 : ℚ) ≤ (m.rate i j : ℚ) := by exact_mod_cast old.rate i j
        have count : (0 : ℚ) ≤ ((m.rate i j + 1 : Int) : ℚ) := by
          push_cast
          linarith
        exact div_nonneg (add_nonneg (mul_nonneg (old.latency i j) rate) (by linarith)) count
      · exact old.latency i j

/-- The two pairs of matrices over a run. -/
structure Entries (s : State ℚ) : Prop where
  transmission : NonNeg s.transmission
  tmp : NonNeg s.tmp

/-- A send never ends before it starts. -/
def Forward : TrafficEvent ℚ → Prop
  | .completion _ _ startTime endTime _ => startTime ≤ endTime
  | .round => True

/-- A send leaves the organizer's own variables alone. -/
theorem completion_frame {p : Platform} {params : Params ℚ} {s next : State ℚ} {sender receiver : Nat}
    {startTime endTime : ℚ} {ok : Bool}
    (taken : trafficStep p params s (.completion sender receiver startTime endTime ok) = some next) :
    next.tmp = s.tmp ∧ next.lastCandidateVMIndex = s.lastCandidateVMIndex := by
  simp only [trafficStep] at taken
  split at taken
  · obtain ⟨m, _, rfl⟩ := Option.map_eq_some_iff.mp taken
    exact ⟨rfl, rfl⟩
  · contradiction

theorem step_entries {p : Platform} {params : Params ℚ} (low : 0 ≤ params.alpha) (high : params.alpha ≤ 1)
    {s next : State ℚ} {event : TrafficEvent ℚ} (entries : Entries s) (forward : Forward event)
    (taken : trafficStep p params s event = some next) : Entries next := by
  cases event with
  | completion sender receiver startTime endTime ok =>
    refine ⟨sendTask_nonneg entries.transmission forward (completion_step taken), ?_⟩
    rw [(completion_frame taken).1]
    exact entries.tmp
  | round =>
    obtain ⟨tmp, cleared, _⟩ := round_cases taken
    constructor
    · rw [cleared]
      exact clear_nonneg _ entries.transmission
    · rw [tmp]
      exact smooth_nonneg low high entries.tmp entries.transmission

theorem run_entries {p : Platform} {params : Params ℚ} (low : 0 ≤ params.alpha) (high : params.alpha ≤ 1)
    {s final : State ℚ} {events : List (TrafficEvent ℚ)} (entries : Entries s)
    (forward : ∀ event ∈ events, Forward event)
    (reached : Runs.run (trafficStep p params) s events = some final) : Entries final := by
  revert forward
  apply Runs.run_history (fun past mid => (∀ event ∈ past, Forward event) → Entries mid)
    (fun _ => entries) _ reached
  intro past mid event next _ earlier taken forward
  have old := earlier fun e member => forward e (List.mem_append_left _ member)
  exact step_entries low high old (forward event (by simp)) taken

/-- What a round that begins in this state decides. -/
def roundCall (p : Platform) (params : Params ℚ) (s : State ℚ) : Option (Option (Nat × Nat)) :=
  decision p params (smooth params s.tmp s.transmission) s.placement s.lastCandidateVMIndex

/-- At this event, a round calls `migrate_vm` for the VM. -/
def Migrates (p : Platform) (params : Params ℚ) (vm : Nat) (s : State ℚ) : TrafficEvent ℚ → Prop
  | .completion _ _ _ _ _ => False
  | .round => ∃ target, roundCall p params s = some (some (vm, target))

theorem migrates_last {p : Platform} {params : Params ℚ} {vm : Nat} {s next : State ℚ}
    {event : TrafficEvent ℚ} (migrates : Migrates p params vm s event)
    (taken : trafficStep p params s event = some next) : next.lastCandidateVMIndex = vm := by
  cases event with
  | completion => contradiction
  | round =>
    obtain ⟨target, decided⟩ := migrates
    obtain ⟨tmp, _, ⟨idle, _⟩ | ⟨v, t, called, _, last, _⟩⟩ := round_cases taken
    · rw [tmp] at idle
      cases idle.symm.trans decided
    · rw [tmp] at called
      cases called.symm.trans decided
      exact last

/-- An event at which nothing is migrated keeps the last candidate. -/
theorem quiet_last {p : Platform} {params : Params ℚ} {s next : State ℚ} {event : TrafficEvent ℚ}
    (quiet : ∀ vm, ¬ Migrates p params vm s event) (taken : trafficStep p params s event = some next) :
    next.lastCandidateVMIndex = s.lastCandidateVMIndex := by
  cases event with
  | completion => exact (completion_frame taken).2
  | round =>
    obtain ⟨tmp, _, ⟨_, _, last, _⟩ | ⟨v, t, called, _⟩⟩ := round_cases taken
    · exact last
    · rw [tmp] at called
      exact absurd ⟨t, called⟩ (quiet v)

/-- In every run from fresh matrices, any two migrations with none in between, however many
rounds and sends there are, are of different VMs. -/
theorem no_vm_moved_twice (p : Platform) (params : Params ℚ) (low : 0 ≤ params.alpha)
    (high : params.alpha ≤ 1) (same : 0 ≤ params.vmDownTimeServiceSameCluster)
    (other : 0 ≤ params.vmDownTimeServiceOtherCluster) (placement : Placement)
    (past between : List (TrafficEvent ℚ)) (first second : TrafficEvent ℚ)
    (forward : ∀ event ∈ past ++ first :: between, Forward event)
    (before moved after : State ℚ)
    (started : Runs.run (trafficStep p params) ⟨placement, initialMatrices, initialMatrices, -1, 0⟩ past =
      some before)
    (taken : trafficStep p params before first = some moved)
    (led : Runs.run (trafficStep p params) moved between = some after)
    (quiet : Runs.Each (trafficStep p params) moved between fun s event =>
      ∀ vm, ¬ Migrates p params vm s event)
    (v w : Nat) (once : Migrates p params v before first) (again : Migrates p params w after second) :
    v ≠ w := by
  have entries : Entries after := by
    have begun : Entries ⟨placement, initialMatrices, initialMatrices, -1, 0⟩ :=
      ⟨initialMatrices_nonneg, initialMatrices_nonneg⟩
    have there : Runs.run (trafficStep p params) ⟨placement, initialMatrices, initialMatrices, -1, 0⟩
        (past ++ first :: between) = some after := by
      rw [Runs.run_append,started,Option.bind_some,Runs.run_cons,taken,Option.bind_some,led]
    exact run_entries low high begun forward there
  have last : after.lastCandidateVMIndex = v := by
    rw [Runs.run_kept State.lastCandidateVMIndex _ (fun _ _ _ => quiet_last) quiet led]
    exact migrates_last once taken
  cases second with
  | completion => contradiction
  | round =>
    obtain ⟨target, decided⟩ := again
    have smoothed := smooth_nonneg low high entries.tmp entries.transmission
    have differs := (decision_busiest smoothed same other decided).1.other
    rw [last] at differs
    intro is
    exact differs (by rw [is])

/-- Two VMs on two PMs exchange a slow message before each of two rounds: VM 0 joins VM 1,
and then VM 1 goes away. -/
theorem no_vm_moved_twice_two :
    let p : Platform := ⟨["c-0.me", "c-1.me", "c-2.me"]⟩
    let params : Params ℚ := ⟨2, 0, 17, 20⟩
    let placement : Placement := ⟨fun i => ⟨p.hosts[i]?, 1, fun _ => i⟩, id⟩
    let slow : TrafficEvent ℚ := .completion 0 1 0 1000 true
    ∃ before after, Runs.run (trafficStep p params) ⟨placement, initialMatrices, initialMatrices, -1, 0⟩
        [slow] = some before ∧ Migrates p params 0 before .round ∧
      Runs.run (trafficStep p params) before [.round, slow] = some after ∧
        Migrates p params 1 after .round ∧ 0 ≠ 1 := by
  intro p params placement slow
  have calls : (Runs.run (trafficStep p params) ⟨placement, initialMatrices, initialMatrices, -1, 0⟩
      [slow]).map (fun s => (roundCall p params s,
        (Runs.run (trafficStep p params) s [.round, slow]).map (roundCall p params))) =
          some (some (some (0, 1)), some (some (some (1, 0)))) := by decide +kernel
  obtain ⟨before, started, is⟩ := Option.map_eq_some_iff.mp calls
  obtain ⟨decided, later⟩ := Prod.mk.inj is
  obtain ⟨after, led, decided_again⟩ := Option.map_eq_some_iff.mp later
  have once : Migrates p params 0 before .round := ⟨1, decided⟩
  have again : Migrates p params 1 after .round := ⟨0, decided_again⟩
  refine ⟨before, after, started, once, led, again, ?_⟩
  obtain ⟨moved, taken, on⟩ := Option.bind_eq_some_iff.mp led
  have forward : ∀ event ∈ [slow] ++ .round :: [slow], Forward event := by
    simp [slow,Forward]
  have quiet : Runs.Each (trafficStep p params) moved [slow] fun s event =>
      ∀ vm, ¬ Migrates p params vm s event :=
    Runs.each_cons.mpr ⟨fun _ migrates => migrates, fun _ _ => Runs.each_nil _ _ _⟩
  exact no_vm_moved_twice p params le_rfl zero_le_one (by norm_num [params]) (by norm_num [params]) placement
    [slow] [slow] .round .round forward before moved after started taken on quiet 0 1 once again

end Hpvc.Organizer
