import Hpvc.OrganizerRound
import Mathlib.Algebra.Order.Field.Rat
import Mathlib.Algebra.BigOperators.Group.List.Basic
import Mathlib.Tactic.FieldSimp
import Mathlib.Tactic.Linarith
import Mathlib.Tactic.Positivity

/-! Traffic measurement: the senders add each message to the shared matrices when its
send completes, and the organizer takes the matrices and clears them every round. -/
namespace Hpvc.Organizer

/-- `sprintf(vm_name, "vm_%d_%d", cluster_id, i)` -/
def vmName (clusterId i : Nat) : List Char :=
  'v' :: 'm' :: '_' :: (Decimal.formatU clusterId ++ '_' :: Decimal.formatU i)

/-- `sscanf(name, "vm_%d_%d", &clusterID, &id)`: what is not matched keeps its value. -/
def scanVmName (name : List Char) (clusterID id : Int) : Int × Int :=
  match name with
  | 'v' :: 'm' :: '_' :: rest =>
    match Decimal.scanInt rest with
    | some (cluster, '_' :: tail) =>
      match Decimal.scanInt tail with
      | some (i, _) => (cluster, i)
      | none => (cluster, id)
    | some (cluster, _) => (cluster, id)
    | none => (clusterID, id)
  | _ => (clusterID, id)

theorem scanVmName_vmName (cluster i : Nat) (clusterID id : Int) :
    scanVmName (vmName cluster i) clusterID id = ((cluster : Int), (i : Int)) := by
  have first := Decimal.scanInt_formatU cluster ('_' :: Decimal.formatU i) (by
    intro c hc
    cases hc
    rfl)
  have second := Decimal.scanInt_formatU i [] (by simp)
  rw [List.append_nil] at second
  simp only [vmName,scanVmName,first,second]

section Arithmetic
variable {R : Type} [Add R] [Sub R] [Mul R] [Div R] [IntCast R] [LT R] [DecidableLT R] [Truncate R]

/-- The end of `send_task`: its result, the names of the two VMs, and the clock before
and after the send. An index below zero is outside the matrices. -/
def sendTask (ok : Bool) (senderName receiverName : List Char) (startTime endTime : R)
    (m : Matrices R) : Option (Matrices R) :=
  if ok then
    let (clusterID, senderID) := scanVmName senderName (-1) (-1)
    let (clusterID, receiverID) := scanVmName receiverName clusterID (-1)
    if clusterID = 0 then
      if senderID < 0 ∨ receiverID < 0 then none
      else
        let i := senderID.toNat
        let j := receiverID.toNat
        let oldAvg := m.latency i j
        let oldRate := m.rate i j
        some
          { rate := Function.update m.rate i (Function.update (m.rate i) j (oldRate + 1))
            latency := Function.update m.latency i (Function.update (m.latency i) j
              ((oldAvg * (oldRate : R) + (endTime - startTime)) / ((oldRate + 1 : Int) : R))) }
    else some m
  else some m

/-- A send between two VMs of cluster 0 completes, or the organizer has its round. -/
inductive TrafficEvent (R : Type) where
  | completion (sender receiver : Nat) (startTime endTime : R) (ok : Bool)
  | round

/-- VMs are taken from `vm_list`, which aborts past its end. -/
def trafficStep (p : Platform) (params : Params R) (s : State R) : TrafficEvent R → Option (State R)
  | .completion sender receiver startTime endTime ok =>
    if sender < params.numberOfVMs ∧ receiver < params.numberOfVMs then
      (sendTask ok (vmName 0 sender) (vmName 0 receiver) startTime endTime s.transmission).map
        fun m => { s with transmission := m }
    else none
  | .round => organizationRound p params s

/-- The durations of the sends from `i` to `j` that completed since the last round, one
after the other. -/
def durations (i j : Nat) (events : List (TrafficEvent R)) : List R :=
  events.foldl (fun found event =>
    match event with
    | .round => []
    | .completion sender receiver startTime endTime ok =>
      if ok = true ∧ sender = i ∧ receiver = j then found ++ [endTime - startTime] else found) []

end Arithmetic

@[simp] theorem durations_nil (i j : Nat) : durations i j ([] : List (TrafficEvent ℚ)) = [] := rfl

@[simp] theorem durations_round (i j : Nat) (past : List (TrafficEvent ℚ)) :
    durations i j (past ++ [.round]) = [] := by
  simp [durations]

theorem durations_completion (i j sender receiver : Nat) (startTime endTime : ℚ) (ok : Bool)
    (past : List (TrafficEvent ℚ)) :
    durations i j (past ++ [.completion sender receiver startTime endTime ok]) =
      if ok = true ∧ sender = i ∧ receiver = j then durations i j past ++ [endTime - startTime]
      else durations i j past := by
  simp [durations]

/-- What is to be found in the matrices: the initial entries with each send added once. -/
def Measured (n : Nat) (events : List (TrafficEvent ℚ)) (m : Matrices ℚ) : Prop :=
  ∀ i < n, ∀ j < n,
    m.rate i j = initialTransmissionRate + (durations i j events).length ∧
    m.latency i j = (initialTransmissionLatency + (durations i j events).sum) / m.rate i j

theorem initial_measured (n : Nat) : Measured n [] initialMatrices := by
  intro i _ j _
  simp [initialMatrices,initialTransmissionRate]

/-- A running average times its count is the sum. -/
theorem average_step {average total count duration : ℚ} (positive : 0 < count)
    (is : average = total / count) :
    (average * count + duration) / (count + 1) = (total + duration) / (count + 1) := by
  rw [is,div_mul_cancel₀ total positive.ne']

/-- The names printed for two VMs are read back, so the entry of just this pair changes. -/
theorem sendTask_ok (sender receiver : Nat) (startTime endTime : ℚ) (m : Matrices ℚ) :
    ∃ next, sendTask true (vmName 0 sender) (vmName 0 receiver) startTime endTime m = some next ∧
      ∀ i j, (next.rate i j = m.rate i j + if sender = i ∧ receiver = j then 1 else 0) ∧
        next.latency i j = if sender = i ∧ receiver = j then
          (m.latency i j * m.rate i j + (endTime - startTime)) / ((m.rate i j + 1 : Int) : ℚ)
        else m.latency i j := by
  refine ⟨_, by simp only [sendTask,scanVmName_vmName]; rfl, fun i j => ?_⟩
  by_cases hi : i = sender
  · by_cases hj : j = receiver
    · subst hi hj
      simp
    · subst hi
      simp [hj,Ne.symm hj]
  · simp [hi,Ne.symm hi]

theorem completion_measured {n sender receiver : Nat} {startTime endTime : ℚ} {ok : Bool}
    {past : List (TrafficEvent ℚ)} {m next : Matrices ℚ} (measured : Measured n past m)
    (taken : sendTask ok (vmName 0 sender) (vmName 0 receiver) startTime endTime m = some next) :
    Measured n (past ++ [.completion sender receiver startTime endTime ok]) next := by
  intro i hi j hj
  obtain ⟨rate, latency⟩ := measured i hi j hj
  rw [durations_completion]
  cases ok with
  | false =>
    cases taken
    simpa using ⟨rate, latency⟩
  | true =>
    obtain ⟨after, is, entries⟩ := sendTask_ok sender receiver startTime endTime m
    cases is.symm.trans taken
    obtain ⟨newRate, newLatency⟩ := entries i j
    rw [newLatency,newRate]
    by_cases here : sender = i ∧ receiver = j
    · have positive : (0 : ℚ) < m.rate i j := by
        rw [rate,initialTransmissionRate]
        positivity
      simp only [here,and_self,if_true,List.length_append,List.length_singleton,List.sum_append,
        List.sum_singleton,rate]
      rw [rate] at positive latency
      refine ⟨by push_cast; ring, ?_⟩
      push_cast at positive latency ⊢
      rw [average_step positive latency,add_assoc initialTransmissionLatency]
    · simp only [here,and_false,if_false,add_zero]
      exact ⟨rate, latency⟩

theorem completion_step {p : Platform} {params : Params ℚ} {s next : State ℚ} {sender receiver : Nat}
    {startTime endTime : ℚ} {ok : Bool}
    (taken : trafficStep p params s (.completion sender receiver startTime endTime ok) = some next) :
    sendTask ok (vmName 0 sender) (vmName 0 receiver) startTime endTime s.transmission =
      some next.transmission := by
  simp only [trafficStep] at taken
  split at taken
  · obtain ⟨m, sent, rfl⟩ := Option.map_eq_some_iff.mp taken
    exact sent
  · contradiction

theorem run_measured {p : Platform} {params : Params ℚ} {s final : State ℚ} {events : List (TrafficEvent ℚ)}
    (fresh : s.transmission = initialMatrices) (h : Runs.run (trafficStep p params) s events = some final) :
    Measured params.numberOfVMs events final.transmission := by
  refine Runs.run_history (fun past mid => Measured params.numberOfVMs past mid.transmission)
    (fresh ▸ initial_measured _) (fun past mid event next _ measured taken => ?_) h
  cases event with
  | completion sender receiver startTime endTime ok =>
    exact completion_measured measured (completion_step taken)
  | round =>
    obtain ⟨_, cleared, _⟩ := round_cases taken
    rw [cleared]
    intro i hi j hj
    simp [clear,overPairs,hi,hj,initialMatrices,initialTransmissionRate]

/-- In every run from fresh matrices, of sends that complete in any order between rounds
at any moments, the matrices hold the sends since the last round; a failed send
changes nothing. -/
theorem traffic_measured (p : Platform) (params : Params ℚ) (s : State ℚ)
    (fresh : s.transmission = initialMatrices) (events : List (TrafficEvent ℚ)) (final : State ℚ)
    (h : Runs.run (trafficStep p params) s events = some final) :
    Measured params.numberOfVMs events final.transmission ∧
    ∀ sender receiver startTime endTime next,
      trafficStep p params final (.completion sender receiver startTime endTime false) = some next →
      next.transmission = final.transmission := by
  constructor
  · exact run_measured fresh h
  · intro sender receiver startTime endTime next taken
    exact (Option.some.inj (completion_step taken)).symm

/-- A message before a round and one after it, on two PMs with one VM each. -/
theorem traffic_measured_two :
    let p : Platform := ⟨["c-0.me", "c-1.me", "c-2.me"]⟩
    let params : Params ℚ := ⟨2, 1 / 10, 17, 20⟩
    let s : State ℚ := ⟨⟨fun i => ⟨p.hosts[i]?, 1, fun _ => i⟩, id⟩, initialMatrices, initialMatrices, -1, 0⟩
    let events : List (TrafficEvent ℚ) :=
      [.completion 0 1 0 1 true, .round, .completion 0 1 2 5 true]
    ∃ final, Runs.run (trafficStep p params) s events = some final ∧
      final.transmission.rate 0 1 = 2 ∧ final.transmission.latency 0 1 = (6 / 1000 + 3) / 2 := by
  intro p params s events
  have runs : (Runs.run (trafficStep p params) s events).isSome = true := by decide +kernel
  obtain ⟨final, h⟩ := Option.isSome_iff_exists.mp runs
  obtain ⟨rate, latency⟩ := (traffic_measured p params s rfl events final h).1 0 (by decide) 1 (by decide)
  have sends : durations 0 1 events = [5 - 2] := rfl
  rw [sends] at rate latency
  refine ⟨final, h, rate, ?_⟩
  rw [latency,rate]
  norm_num [initialTransmissionRate,initialTransmissionLatency]

end Hpvc.Organizer
