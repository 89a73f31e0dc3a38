import Hpvc.OrganizerAccounting
import Hpvc.ProjectCompletion
import Hpvc.ProjectNames

/-! What `main` reports of a simulation of simgrid-project. Each process stores its times when its message has
been taken, in whatever order they come to it, and `destroy_master` sums them up for each cluster. -/
namespace Hpvc.Project

open Organizer (quotient)

structure SlowDown where
  expectedTime : ℚ
  actualTime : ℚ

/-- `slow_down` and `finish_times`, by cluster and process. -/
structure Measured where
  slowDown : Nat × Nat → SlowDown
  finishTimes : Nat × Nat → ℚ

/-- What a `process_task` measures with. -/
structure TaskLocals where
  argv : List (List Char)
  realStartTime : ℚ

/-- The end of its work. With too few arguments it has returned before. -/
def TaskLocals.store (task : TaskLocals) (m : Machine) (realFinishTime : ℚ) (s : Measured) : Measured :=
  match readTask task.argv with
  | none => s
  | some read =>
    let need := computeResourceNeed m read.randTask read.r read.m read.c
    let t := (read.clusterId.toNat, read.processSequence.toNat)
    { slowDown := Function.update s.slowDown t ⟨need.expectedTime, realFinishTime - task.realStartTime⟩
      finishTimes := Function.update s.finishTimes t realFinishTime }

/-- The processes with the simulated time and what they measure. -/
structure Timed where
  processes : Processes
  clock : ℚ
  locals : Nat × Nat → TaskLocals
  measured : Measured

def startTimed (k : Simulation) : Timed where
  processes := k.start
  clock := 0
  locals _ := ⟨[], 0⟩
  measured := ⟨fun _ => ⟨0, 0⟩, fun _ => 0⟩

/-- A process starts as soon as it is created. -/
def Timed.begun (k : Simulation) (params : Nat → TaskParams) (s : Timed) (now : ℚ) :
    ProcessEvent → Nat × Nat → TaskLocals
  | .create =>
    match s.processes.createTasks with
    | .creating i clusterId response =>
      match k.homeVm i clusterId response with
      | some home =>
        Function.update s.locals (clusterId, i) ⟨printTask k clusterId i home (params i), now⟩
      | none => s.locals
    | _ => s.locals
  | _ => s.locals

/-- The message of a process, not its fin, is what it measures to the end of. -/
def Timed.stored (m : Machine) (s : Timed) (now : ℚ) : ProcessEvent → Measured
  | .transfer (.task t) =>
    if s.processes.tasks t = .sending then (s.locals t).store m now s.measured else s.measured
  | _ => s.measured

/-- An event and when it comes. -/
structure TimedEvent where
  now : ℚ
  event : ProcessEvent

def timedStep (k : Simulation) (m : Machine) (params : Nat → TaskParams) (s : Timed) (e : TimedEvent) :
    Option Timed :=
  if e.now < s.clock then none
  else
    (processStep k s.processes e.event).map fun next =>
      { processes := next
        clock := e.now
        locals := s.begun k params e.now e.event
        measured := s.stored m e.now e.event }

/-- A sum that is infinite, or no number, stays so. -/
def plus (a b : Option ℚ) : Option ℚ := do
  return (← a) + (← b)

/-- The sums that `destroy_master` takes over the processes of a cluster. -/
structure Sums where
  totalActual : ℚ
  totalExpected : ℚ
  meanSlowdown : Option ℚ
  meanExceedPercent : Option ℚ
  totalExceed : ℚ

def sumTurn (s : Measured) (clusterId : Nat) (sums : Sums) (i : Nat) : Sums :=
  let actual := (s.slowDown (clusterId, i)).actualTime
  let expected := (s.slowDown (clusterId, i)).expectedTime
  { totalActual := sums.totalActual + actual
    totalExpected := sums.totalExpected + expected
    meanSlowdown := plus sums.meanSlowdown (quotient actual expected)
    meanExceedPercent := plus sums.meanExceedPercent (quotient (actual - expected) actual)
    totalExceed := sums.totalExceed + (actual - expected) }

/-- `mean_finish_time_diff` and `max_finish_time` -/
def finishTurn (s : Measured) (sums : ℚ × ℚ) (i : Nat) : ℚ × ℚ :=
  let finish0 := s.finishTimes (0, i)
  let finish1 := s.finishTimes (1, i)
  (sums.1 + (i + 1) * (finish1 - finish0), if sums.2 < finish0 then finish0 else sums.2)

/-- What it prints of them. -/
structure Report where
  meanSlowdown : Option ℚ
  weightedSlowdown : Option ℚ
  meanExceedPercent : Option ℚ
  totalExceed : ℚ
  lifetime : Option ℚ
  maxFinishTime : ℚ

/-- Only for cluster 0 are the finish times compared; of the exceed percents it prints the sum. The number of
pairs that the lifetime is divided by is an `int`. -/
def destroyMaster (noProcess clusterId : Nat) (s : Measured) : Report :=
  let sums := (List.range noProcess).foldl (sumTurn s clusterId) ⟨0, 0, some 0, some 0, 0⟩
  let finishes := if clusterId = 0 then (List.range noProcess).foldl (finishTurn s) (0, 0) else (0, 0)
  { meanSlowdown := sums.meanSlowdown.bind (quotient · noProcess)
    weightedSlowdown := quotient sums.totalActual sums.totalExpected
    meanExceedPercent := sums.meanExceedPercent
    totalExceed := sums.totalExceed
    lifetime := quotient (2 * finishes.1) (Int.bmod (noProcess * (noProcess - 1)) (2 ^ 32) : Int)
    maxFinishTime := finishes.2 }

/-- What the processes with these random numbers are expected to take, in either cluster. -/
def TaskParams.expectedTime (p : TaskParams) (m : Machine) : ℚ :=
  (computeResourceNeed m (sixDecimals p.randTask.value) (sixDecimals p.r.value) (sixDecimals p.m.value)
    (sixDecimals p.c.value)).expectedTime

theorem expectedTime_positive (m : Machine) (randTask r memory c : ℚ) :
    0 < (computeResourceNeed m randTask r memory c).expectedTime := by
  have some_net : 0 < m.netMax := by
    have some_vm : (0 : ℚ) < m.vmToHost := by exact_mod_cast m.some_vm
    exact div_pos (by norm_num [maxVmNet]) some_vm
  have most : (0 : ℚ) < maxVmNet := by norm_num [maxVmNet]
  have sends (c : ℚ) : 0 < 1 / (if c ≤ 1 / 10 then 1 / 10 else c) * m.netMax / maxVmNet := by
    have raised : 0 < if c ≤ 1 / 10 then 1 / 10 else c := by
      split <;> linarith
    positivity
  have transfer := sends c
  unfold computeResourceNeed
  split
  next =>
    have divisor : (1 : ℚ) / 100 ≤ if r < 1 / 100 then 1 / 100 else r := by
      split <;> linarith
    have part : 2 / (if r < 1 / 100 then 1 / 100 else r) ≤ 200 := by
      rw [div_le_iff₀ (by linarith)]
      linarith
    have positive : 0 < 2 / if r < 1 / 100 then 1 / 100 else r := div_pos (by norm_num) (by linarith)
    dsimp only
    split <;> linarith
  next =>
    have divisor : (0 : ℚ) < if r < 1 / 1000000 then 1 / 1000000 else r := by
      split <;> linarith
    have positive := div_pos (by norm_num : (0 : ℚ) < 20) divisor
    dsimp only
    linarith

/-- The phases in which a process has stored its times. -/
def ProcessTask.Done : ProcessTask → Prop
  | .sent => True
  | .sendingFin => True
  | .finished => True
  | _ => False

/-- What its variables and the arrays hold of each process. -/
structure Accounted (k : Simulation) (m : Machine) (params : Nat → TaskParams) (s : Timed) : Prop where
  now : 0 ≤ s.clock
  begun : ∀ t, s.processes.tasks t ≠ .absent →
    ∃ home, (s.locals t).argv = printTask k t.1 t.2 home (params t.2)
  started : ∀ t, s.processes.tasks t ≠ .absent → 0 ≤ (s.locals t).realStartTime ∧ (s.locals t).realStartTime ≤ s.clock
  stored : ∀ t, (s.processes.tasks t).Done → s.measured.slowDown t =
    ⟨(params t.2).expectedTime m, s.measured.finishTimes t - (s.locals t).realStartTime⟩
  finished : ∀ t, (s.processes.tasks t).Done →
    (s.locals t).realStartTime ≤ s.measured.finishTimes t ∧ s.measured.finishTimes t ≤ s.clock

theorem start_accounted (k : Simulation) (m : Machine) (params : Nat → TaskParams) :
    Accounted k m params (startTimed k) where
  now := le_rfl
  begun _ there := absurd rfl there
  started _ there := absurd rfl there
  stored _ done := done.elim
  finished _ done := done.elim

section Step

variable {k : Simulation} {m : Machine} {params : Nat → TaskParams} {s : Timed}

/-- A step at which no process begins or stores its times. -/
theorem Accounted.goes_on (accounted : Accounted k m params s) {next : Processes} {now : ℚ} (later : s.clock ≤ now)
    (there : ∀ t, next.tasks t ≠ .absent → s.processes.tasks t ≠ .absent)
    (done : ∀ t, (next.tasks t).Done → (s.processes.tasks t).Done) :
    Accounted k m params ⟨next, now, s.locals, s.measured⟩ where
  now := accounted.now.trans later
  begun t present := accounted.begun t (there t present)
  started t present := by
    obtain ⟨nonneg, early⟩ := accounted.started t (there t present)
    exact ⟨nonneg, early.trans later⟩
  stored t through := accounted.stored t (done t through)
  finished t through := by
    obtain ⟨length, past⟩ := accounted.finished t (done t through)
    exact ⟨length, past.trans later⟩

/-- The same where one process moves on between two phases, both before or both after that. -/
theorem Accounted.moves_on (accounted : Accounted k m params s) {next : Processes} {now : ℚ} (later : s.clock ≤ now)
    {t : Nat × Nat} {task : ProcessTask} (moved : next.tasks = Function.update s.processes.tasks t task)
    (there : s.processes.tasks t ≠ .absent) (done : task.Done → (s.processes.tasks t).Done) :
    Accounted k m params ⟨next, now, s.locals, s.measured⟩ := by
  refine accounted.goes_on later (fun u present => ?_) (fun u through => ?_)
  · by_cases same : u = t
    · rwa [same]
    · rwa [moved,Function.update_of_ne same] at present
  · by_cases same : u = t
    · rw [moved,same,Function.update_self] at through
      rw [same]
      exact done through
    · rwa [moved,Function.update_of_ne same] at through

/-- A process that is created. -/
theorem Accounted.creates (accounted : Accounted k m params s) {next : Processes} {now : ℚ} (later : s.clock ≤ now)
    {t : Nat × Nat} (moved : next.tasks = Function.update s.processes.tasks t .working) (home : Nat) :
    Accounted k m params
      ⟨next, now, Function.update s.locals t ⟨printTask k t.1 t.2 home (params t.2), now⟩, s.measured⟩ := by
  have old {u : Nat × Nat} (other : u ≠ t) : next.tasks u = s.processes.tasks u ∧
      Function.update s.locals t ⟨printTask k t.1 t.2 home (params t.2), now⟩ u = s.locals u := by
    rw [moved]
    exact ⟨Function.update_of_ne other .., Function.update_of_ne other ..⟩
  have working : next.tasks t = .working := by
    rw [moved,Function.update_self]
  have nonneg := accounted.now.trans later
  refine ⟨nonneg, fun u present => ?_, fun u present => ?_, fun u through => ?_, fun u through => ?_⟩
  all_goals dsimp only at *
  all_goals by_cases same : u = t
  · rw [same,Function.update_self]
    exact ⟨home, rfl⟩
  · rw [(old same).1] at present
    rw [(old same).2]
    exact accounted.begun u present
  · rw [same,Function.update_self]
    exact ⟨nonneg, le_rfl⟩
  · rw [(old same).1] at present
    rw [(old same).2]
    obtain ⟨nonneg, early⟩ := accounted.started u present
    exact ⟨nonneg, early.trans later⟩
  · rw [same,working] at through
    exact through.elim
  · rw [(old same).1] at through
    rw [(old same).2]
    exact accounted.stored u through
  · rw [same,working] at through
    exact through.elim
  · rw [(old same).1] at through
    rw [(old same).2]
    obtain ⟨length, past⟩ := accounted.finished u through
    exact ⟨length, past.trans later⟩

theorem Accounted.finish_within (accounted : Accounted k m params s) (complete : Complete k s.processes)
    {clusterId i : Nat} (cluster : clusterId < numberOfClusters) (less : i < k.numberOfProcesses) :
    0 ≤ s.measured.finishTimes (clusterId, i) ∧ s.measured.finishTimes (clusterId, i) ≤ s.clock := by
  have finished := complete.tasks (clusterId, i) (by simp [Simulation.taskIds,cluster,less])
  obtain ⟨start, _⟩ := accounted.started (clusterId, i) (by simp [finished])
  obtain ⟨length, past⟩ := accounted.finished (clusterId, i) (by rw [finished]; trivial)
  exact ⟨start.trans length, past⟩

/-- Where the times go that a process stores. -/
theorem store_printed {task : TaskLocals} {t : Nat × Nat} {home : Nat}
    (argv : task.argv = printTask k t.1 t.2 home (params t.2)) (realFinishTime : ℚ) (before : Measured) :
    task.store m realFinishTime before =
      ⟨Function.update before.slowDown t ⟨(params t.2).expectedTime m, realFinishTime - task.realStartTime⟩,
        Function.update before.finishTimes t realFinishTime⟩ := by
  rw [TaskLocals.store,argv,readTask_printTask]
  rfl

/-- A process whose message has been taken. -/
theorem Accounted.stores (accounted : Accounted k m params s) {next : Processes} {now : ℚ} (later : s.clock ≤ now)
    {t : Nat × Nat} (moved : next.tasks = Function.update s.processes.tasks t .sent)
    (sending : s.processes.tasks t = .sending) :
    Accounted k m params ⟨next, now, s.locals, (s.locals t).store m now s.measured⟩ := by
  have there : s.processes.tasks t ≠ .absent := by
    simp [sending]
  obtain ⟨home, argv⟩ := accounted.begun t there
  obtain ⟨_, early⟩ := accounted.started t there
  have present {u : Nat × Nat} (now_there : next.tasks u ≠ .absent) : s.processes.tasks u ≠ .absent := by
    by_cases same : u = t
    · rwa [same]
    · rwa [moved,Function.update_of_ne same] at now_there
  rw [store_printed argv]
  refine ⟨accounted.now.trans later, fun u is => accounted.begun u (present is), fun u is => ?_,
    fun u through => ?_, fun u through => ?_⟩
  · obtain ⟨nonneg, early⟩ := accounted.started u (present is)
    exact ⟨nonneg, early.trans later⟩
  all_goals by_cases same : u = t
  · subst same
    simp only [Function.update_self]
  · rw [moved,Function.update_of_ne same] at through
    simp only [Function.update_of_ne same]
    exact accounted.stored u through
  · subst same
    simp only [Function.update_self]
    exact ⟨early.trans later, le_rfl⟩
  · rw [moved,Function.update_of_ne same] at through
    simp only [Function.update_of_ne same]
    obtain ⟨length, past⟩ := accounted.finished u through
    exact ⟨length, past.trans later⟩

theorem step_accounted (accounted : Accounted k m params s) {next : Timed} {e : TimedEvent}
    (taken : timedStep k m params s e = some next) : Accounted k m params next := by
  unfold timedStep at taken
  split at taken
  next => contradiction
  next late =>
    have later := not_lt.mp late
    obtain ⟨processes, stepped, rfl⟩ := Option.map_eq_some_iff.mp taken
    obtain ⟨now, event⟩ := e
    cases processStep_steps stepped with
    | idle event waits =>
      rcases waits with ⟨party, rfl⟩ | rfl
      all_goals exact accounted.goes_on later (fun _ => id) fun _ => id
    | created i clusterId response home creating chosen inside =>
      simp only [Timed.begun,Timed.stored,creating,chosen]
      exact accounted.creates later rfl home
    | executed t working =>
      exact accounted.moves_on later rfl (by simp [working]) False.elim
    | sends t executed =>
      exact accounted.moves_on later rfl (by simp [executed]) False.elim
    | sent t sending running inside receives =>
      simp only [Timed.begun,Timed.stored,if_pos sending]
      exact accounted.stores later rfl sending
    | reports t sent =>
      exact accounted.moves_on later rfl (by simp [sent]) fun _ => by simp [sent,ProcessTask.Done]
    | reported t i sendingFin collecting more =>
      simp only [Timed.begun,Timed.stored,sendingFin,reduceCtorEq,if_false]
      exact accounted.moves_on later rfl (by simp [sendingFin]) fun _ => by simp [sendingFin,ProcessTask.Done]
    | _ => exact accounted.goes_on later (fun _ => id) fun _ => id

theorem run_accounted {events : List TimedEvent} {final : Timed}
    (reached : Runs.run (timedStep k m params) (startTimed k) events = some final) : Accounted k m params final :=
  Runs.run_invariant (Accounted k m params) (fun _ _ _ accounted taken => step_accounted accounted taken)
    (start_accounted k m params) reached

/-- The time does not keep the processes from any of their runs: here each event takes one second. -/
theorem run_timed (m : Machine) (params : Nat → TaskParams) {events : List ProcessEvent} {s : Processes}
    (reached : Runs.run (processStep k) k.start events = some s) : ∃ timed final,
      Runs.run (timedStep k m params) (startTimed k) timed = some final ∧ final.processes = s := by
  suffices counted : ∃ timed final, Runs.run (timedStep k m params) (startTimed k) timed = some final ∧
      final.processes = s ∧ final.clock = events.length by
    obtain ⟨timed, final, run, is, _⟩ := counted
    exact ⟨timed, final, run, is⟩
  refine Runs.run_history (fun past s => ∃ timed final,
    Runs.run (timedStep k m params) (startTimed k) timed = some final ∧ final.processes = s ∧
      final.clock = past.length) ⟨[], startTimed k, rfl, rfl, rfl⟩ ?_ reached
  rintro past mid event next - ⟨timed, final, run, rfl, clock⟩ taken
  have later : ¬ ((past.length + 1 : Nat) : ℚ) < final.clock := by
    rw [clock,not_lt]
    exact_mod_cast Nat.le_succ _
  let e : TimedEvent := ⟨(past.length + 1 : Nat), event⟩
  refine ⟨timed ++ [e], ⟨next, e.now, final.begun k params e.now event, final.stored m e.now event⟩, ?_, rfl, ?_⟩
  · rw [Runs.run_snoc,run,Option.bind_some,timedStep,if_neg later,taken,Option.map_some]
  · rw [List.length_append,List.length_singleton]

end Step

/-- The time a process took. -/
def Timed.took (s : Timed) (t : Nat × Nat) : ℚ := s.measured.finishTimes t - (s.locals t).realStartTime

/-- A report of `n` processes. Their exceed percents are not averaged. -/
structure Reported (n : Nat) (expected took : Nat → ℚ) (report : Report) : Prop where
  meanSlowdown : report.meanSlowdown = some ((∑ i ∈ Finset.range n, took i / expected i) / n)
  weightedSlowdown :
    report.weightedSlowdown = some ((∑ i ∈ Finset.range n, took i) / ∑ i ∈ Finset.range n, expected i)
  meanExceedPercent : (∀ i < n, took i ≠ 0) →
    report.meanExceedPercent = some (∑ i ∈ Finset.range n, (took i - expected i) / took i)
  totalExceed : report.totalExceed = ∑ i ∈ Finset.range n, took i - ∑ i ∈ Finset.range n, expected i

/-- The sums after some turns. -/
structure Summed (n : Nat) (expected took : Nat → ℚ) (sums : Sums) : Prop where
  totalActual : sums.totalActual = ∑ i ∈ Finset.range n, took i
  totalExpected : sums.totalExpected = ∑ i ∈ Finset.range n, expected i
  meanSlowdown : sums.meanSlowdown = some (∑ i ∈ Finset.range n, took i / expected i)
  meanExceedPercent : (∀ i < n, took i ≠ 0) →
    sums.meanExceedPercent = some (∑ i ∈ Finset.range n, (took i - expected i) / took i)
  totalExceed : sums.totalExceed = ∑ i ∈ Finset.range n, took i - ∑ i ∈ Finset.range n, expected i

theorem quotient_divides {a b : ℚ} (divisor : b ≠ 0) : quotient a b = some (a / b) := if_neg divisor

theorem sums_summed {s : Measured} {clusterId n : Nat} {expected took : Nat → ℚ}
    (stored : ∀ i < n, s.slowDown (clusterId, i) = ⟨expected i, took i⟩) (positive : ∀ i, 0 < expected i) :
    Summed n expected took ((List.range n).foldl (sumTurn s clusterId) ⟨0, 0, some 0, some 0, 0⟩) := by
  induction n with
  | zero => exact ⟨rfl, rfl, rfl, fun _ => rfl, by simp⟩
  | succ n ih =>
    obtain ⟨actual, expects, slowdown, percent, exceed⟩ := ih fun i less => stored i (Nat.lt_succ_of_lt less)
    have last := stored n (Nat.lt_succ_self n)
    rw [List.range_succ,List.foldl_append]
    simp only [List.foldl_cons,List.foldl_nil]
    refine ⟨?_, ?_, ?_, fun nonzero => ?_, ?_⟩
    · rw [sumTurn,actual,last,Finset.sum_range_succ]
    · rw [sumTurn,expects,last,Finset.sum_range_succ]
    · rw [sumTurn,slowdown,last,Finset.sum_range_succ]
      rw [quotient_divides (positive n).ne']
      rfl
    · rw [sumTurn,percent fun i less => nonzero i (Nat.lt_succ_of_lt less),last,Finset.sum_range_succ]
      rw [quotient_divides (nonzero n (Nat.lt_succ_self n))]
      rfl
    · rw [sumTurn,exceed,last,Finset.sum_range_succ,Finset.sum_range_succ]
      ring

theorem destroyMaster_reported {s : Measured} {clusterId n : Nat} (some_process : 0 < n) {expected took : Nat → ℚ}
    (stored : ∀ i < n, s.slowDown (clusterId, i) = ⟨expected i, took i⟩) (positive : ∀ i, 0 < expected i) :
    Reported n expected took (destroyMaster n clusterId s) := by
  obtain ⟨actual, expects, slowdown, percent, exceed⟩ := sums_summed stored positive
  have total : (∑ i ∈ Finset.range n, expected i) ≠ 0 :=
    (Finset.sum_pos (fun i _ => positive i) ⟨0, Finset.mem_range.mpr some_process⟩).ne'
  have count : (n : ℚ) ≠ 0 := by exact_mod_cast some_process.ne'
  refine ⟨?_, ?_, percent, exceed⟩
  · rw [destroyMaster,slowdown,Option.bind_some,quotient_divides count]
  · rw [destroyMaster,actual,expects,quotient_divides total]

/-- When a simulation has ended, whatever homes the load balancer chose and in whatever order the processes ended,
both clusters are measured against the same expected times. So the weighted slowdown of the one is below that of
the other, and its exceed, exactly if its processes took less time in all. -/
theorem clusters_compared {k : Simulation} {m : Machine} {params : Nat → TaskParams} {events : List TimedEvent}
    {final : Timed} (reached : Runs.run (timedStep k m params) (startTimed k) events = some final)
    (complete : Complete k final.processes) (some_process : 0 < k.numberOfProcesses) :
    (∀ clusterId < numberOfClusters,
      Reported k.numberOfProcesses (fun i => (params i).expectedTime m) (fun i => final.took (clusterId, i))
          (destroyMaster k.numberOfProcesses clusterId final.measured) ∧
        ∀ i < k.numberOfProcesses, 0 ≤ final.took (clusterId, i)) ∧
    ∃ first second, (destroyMaster k.numberOfProcesses 0 final.measured).weightedSlowdown = some first ∧
      (destroyMaster k.numberOfProcesses 1 final.measured).weightedSlowdown = some second ∧
      (first < second ↔ ∑ i ∈ Finset.range k.numberOfProcesses, final.took (0, i) <
        ∑ i ∈ Finset.range k.numberOfProcesses, final.took (1, i)) ∧
      ((destroyMaster k.numberOfProcesses 0 final.measured).totalExceed <
          (destroyMaster k.numberOfProcesses 1 final.measured).totalExceed ↔ first < second) := by
  have accounted := run_accounted reached
  have positive (i : Nat) : 0 < (params i).expectedTime m := expectedTime_positive m _ _ _ _
  have through {clusterId i : Nat} (cluster : clusterId < numberOfClusters) (less : i < k.numberOfProcesses) :
      (final.processes.tasks (clusterId, i)).Done := by
    rw [complete.tasks (clusterId, i) (by simp [Simulation.taskIds,cluster,less])]
    trivial
  have reported (clusterId : Nat) (cluster : clusterId < numberOfClusters) :
      Reported k.numberOfProcesses (fun i => (params i).expectedTime m) (fun i => final.took (clusterId, i))
        (destroyMaster k.numberOfProcesses clusterId final.measured) :=
    destroyMaster_reported some_process (fun i less => accounted.stored _ (through cluster less)) positive
  have total : 0 < ∑ i ∈ Finset.range k.numberOfProcesses, (params i).expectedTime m :=
    Finset.sum_pos (fun i _ => positive i) ⟨0, Finset.mem_range.mpr some_process⟩
  refine ⟨fun clusterId cluster => ⟨reported clusterId cluster, fun i less => ?_⟩, _, _,
    (reported 0 (by decide)).weightedSlowdown, (reported 1 (by decide)).weightedSlowdown,
    div_lt_div_iff_of_pos_right total, ?_⟩
  · exact sub_nonneg.mpr (accounted.finished _ (through cluster less)).1
  · rw [(reported 0 (by decide)).totalExceed,(reported 1 (by decide)).totalExceed,sub_lt_sub_iff_right,
      div_lt_div_iff_of_pos_right total]

/-- Four VMs on each host. -/
def deployedMachine : Machine := ⟨1, 4, by decide⟩

def deployedTasks (_ : Nat) : TaskParams := ⟨halfRandom, halfRandom, halfRandom, halfRandom⟩

theorem deployed_timed : ∃ events final,
    Runs.run (timedStep deployedTexts deployedMachine deployedTasks) (startTimed deployedTexts) events = some final ∧
      Complete deployedTexts final.processes := by
  obtain ⟨events, s, run, exhausted⟩ := (processStep_descends deployedTexts).exhausts (start_orderly deployedTexts)
  have complete := (completes_iff deployedTexts).2.mpr ⟨fun _ _ => rfl, fun _ => by decide⟩ events s run exhausted
  obtain ⟨timed, final, reached, rfl⟩ := run_timed deployedMachine deployedTasks run
  exact ⟨timed, final, reached, complete⟩

/-- The deployment, at some times. -/
theorem clusters_compared_deployed : ∃ final : Timed,
    (∀ i < 3000, 0 ≤ final.took (0, i)) ∧ ∃ first second,
      (destroyMaster 3000 0 final.measured).weightedSlowdown = some first ∧
      (destroyMaster 3000 1 final.measured).weightedSlowdown = some second ∧
      (first < second ↔ ∑ i ∈ Finset.range 3000, final.took (0, i) < ∑ i ∈ Finset.range 3000, final.took (1, i)) := by
  obtain ⟨events, final, reached, complete⟩ := deployed_timed
  obtain ⟨each, first, second, is, is', compared, _⟩ := clusters_compared reached complete (by decide)
  exact ⟨final, (each 0 (by decide)).2, first, second, is, is', compared⟩

/-- The weighted sum of the differences, with the weights from one on. -/
theorem finishes_between {s : Measured} {n : Nat} {lo hi : ℚ}
    (between : ∀ i < n, lo ≤ s.finishTimes (1, i) - s.finishTimes (0, i) ∧
      s.finishTimes (1, i) - s.finishTimes (0, i) ≤ hi) :
    lo * (n * (n + 1)) ≤ 2 * ((List.range n).foldl (finishTurn s) (0, 0)).1 ∧
      2 * ((List.range n).foldl (finishTurn s) (0, 0)).1 ≤ hi * (n * (n + 1)) := by
  induction n with
  | zero => simp
  | succ n ih =>
    obtain ⟨least, most⟩ := ih fun i less => between i (Nat.lt_succ_of_lt less)
    obtain ⟨above, below⟩ := between n (Nat.lt_succ_self n)
    have weight : (0 : ℚ) ≤ n + 1 := by positivity
    have raised := mul_le_mul_of_nonneg_left above weight
    have bounded := mul_le_mul_of_nonneg_left below weight
    rw [List.range_succ,List.foldl_append]
    simp only [List.foldl_cons,List.foldl_nil,finishTurn]
    push_cast
    constructor <;> linarith

/-- The largest finish time is one of them, if none is below zero. -/
theorem finishes_latest {s : Measured} {n : Nat} (some_process : 0 < n)
    (nonneg : ∀ i < n, 0 ≤ s.finishTimes (0, i)) :
    (∀ i < n, s.finishTimes (0, i) ≤ ((List.range n).foldl (finishTurn s) (0, 0)).2) ∧
      ∃ i < n, s.finishTimes (0, i) = ((List.range n).foldl (finishTurn s) (0, 0)).2 := by
  induction n with
  | zero => contradiction
  | succ n ih =>
    rw [List.range_succ,List.foldl_append]
    simp only [List.foldl_cons,List.foldl_nil,finishTurn]
    have last := nonneg n (Nat.lt_succ_self n)
    rcases Nat.eq_zero_or_pos n with rfl | before
    · have latest : (if 0 < s.finishTimes (0, 0) then s.finishTimes (0, 0) else 0) = s.finishTimes (0, 0) := by
        split <;> linarith
      refine ⟨fun i less => ?_, 0, Nat.one_pos, latest.symm⟩
      obtain rfl := Nat.lt_one_iff.mp less
      exact latest.ge
    · obtain ⟨upper, i, less, is⟩ := ih before fun i less => nonneg i (Nat.lt_succ_of_lt less)
      split
      next later =>
        refine ⟨fun j inside => ?_, n, Nat.lt_succ_self n, rfl⟩
        rcases Nat.lt_succ_iff_lt_or_eq.mp inside with old | rfl
        · exact (upper j old).trans later.le
        · exact le_rfl
      next earlier =>
        refine ⟨fun j inside => ?_, i, Nat.lt_succ_of_lt less, is⟩
        rcases Nat.lt_succ_iff_lt_or_eq.mp inside with old | rfl
        · exact upper j old
        · exact not_lt.mp earlier

/-- Up to 46341 processes the number of pairs does not wrap around. -/
theorem pairs_int {n : Nat} (two_processes : 2 ≤ n) (int_pairs : n ≤ 46341) :
    ((Int.bmod (n * (n - 1)) (2 ^ 32) : Int) : ℚ) = n * (n - 1) := by
  have least : 0 ≤ (n : Int) * (n - 1) := mul_nonneg (by omega) (by omega)
  have most : (n : Int) * (n - 1) ≤ 46341 * 46340 := mul_le_mul (by omega) (by omega) (by omega) (by decide)
  rw [Int.bmod_eq_of_le (by omega) (by omega)]
  push_cast
  rfl

/-- The lifetime that is printed is no average: of differences that all lie between two bounds it makes one between
`(n + 1) / (n - 1)` times these bounds, as long as `n * (n - 1)` is an `int`. The largest finish time is that of the
last process of the first cluster. -/
theorem lifetime_overstated {k : Simulation} {m : Machine} {params : Nat → TaskParams} {events : List TimedEvent}
    {final : Timed} (reached : Runs.run (timedStep k m params) (startTimed k) events = some final)
    (complete : Complete k final.processes) (two_processes : 2 ≤ k.numberOfProcesses)
    (int_pairs : k.numberOfProcesses ≤ 46341) {lo hi : ℚ}
    (between : ∀ i < k.numberOfProcesses,
      lo ≤ final.measured.finishTimes (1, i) - final.measured.finishTimes (0, i) ∧
        final.measured.finishTimes (1, i) - final.measured.finishTimes (0, i) ≤ hi) :
    let n := k.numberOfProcesses
    let report := destroyMaster n 0 final.measured
    (∃ lifetime, report.lifetime = some lifetime ∧ lo * ((n + 1) / (n - 1)) ≤ lifetime ∧
      lifetime ≤ hi * ((n + 1) / (n - 1))) ∧
    (∀ i < n, final.measured.finishTimes (0, i) ≤ report.maxFinishTime) ∧
      ∃ i < n, final.measured.finishTimes (0, i) = report.maxFinishTime := by
  intro n report
  have accounted := run_accounted reached
  have nonneg (i : Nat) (less : i < n) : 0 ≤ final.measured.finishTimes (0, i) :=
    (accounted.finish_within complete (by decide) less).1
  obtain ⟨least, most⟩ := finishes_between between
  have count : (2 : ℚ) ≤ n := by exact_mod_cast two_processes
  have positive : (0 : ℚ) < n * (n - 1) := mul_pos (by linarith) (by linarith)
  have ratio (d : ℚ) : d * ((n + 1) / (n - 1)) = d * (n * (n + 1)) / (n * (n - 1)) := by
    rw [← mul_div_assoc,← mul_assoc,mul_comm d (n : ℚ),mul_assoc,mul_div_mul_left _ _ (by linarith : (n : ℚ) ≠ 0)]
  have pairs : report.lifetime = quotient (2 * ((List.range n).foldl (finishTurn final.measured) (0, 0)).1)
      (n * (n - 1)) := by
    have unwrapped := pairs_int two_processes int_pairs
    simp only [report,destroyMaster,if_true,unwrapped,n]
  rw [pairs]
  refine ⟨⟨_, quotient_divides positive.ne', ?_, ?_⟩, finishes_latest (by omega) nonneg⟩
  · rw [ratio]
    exact div_le_div_of_nonneg_right least positive.le
  · rw [ratio]
    exact div_le_div_of_nonneg_right most positive.le

/-- In the deployment no two processes of one number end further apart than the whole run takes. -/
theorem lifetime_overstated_deployed : ∃ (final : Timed) (lifetime : ℚ),
    (destroyMaster 3000 0 final.measured).lifetime = some lifetime ∧ lifetime ≤ final.clock * (3001 / 2999) := by
  obtain ⟨events, final, reached, complete⟩ := deployed_timed
  have within (clusterId i : Nat) (cluster : clusterId < numberOfClusters) (less : i < 3000) :=
    (run_accounted reached).finish_within complete cluster less
  have between (i : Nat) (less : i < 3000) :
      -final.clock ≤ final.measured.finishTimes (1, i) - final.measured.finishTimes (0, i) ∧
        final.measured.finishTimes (1, i) - final.measured.finishTimes (0, i) ≤ final.clock := by
    obtain ⟨start, past⟩ := within 0 i (by decide) less
    obtain ⟨start', past'⟩ := within 1 i (by decide) less
    constructor <;> linarith
  obtain ⟨⟨lifetime, is, _, most⟩, _⟩ := lifetime_overstated reached complete (by decide) (by decide) between
  refine ⟨final, lifetime, is, ?_⟩
  have count : ((deployedTexts.numberOfProcesses : ℚ) + 1) / (deployedTexts.numberOfProcesses - 1) = 3001 / 2999 := by
    norm_num [deployedTexts]
  rwa [count] at most

end Hpvc.Project
