import Hpvc.ProjectProtocol

/-! Whether a simulation of simgrid-project comes to its end: each process has its listener only if the launch
has created the VMs that the other processes are told of. -/
namespace Hpvc.Project

open Progress

/-- All but sends that fail and the rounds of the host load balancer. -/
def ProcessEvent.productive : ProcessEvent → Bool
  | .retry _ => false
  | .scan => false
  | _ => true

/-- The steps a process still makes; a task that is still to be created counts one more. -/
def ProcessTask.left : ProcessTask → Nat
  | .absent => 6
  | .working => 5
  | .executed => 4
  | .sending => 3
  | .sent => 2
  | .sendingFin => 1
  | .finished => 0

/-- Its steps and those of the load balancer on its requests, without those that create tasks. -/
def CreateTasks.left (n : Nat) : CreateTasks → Nat
  | .starting => 4 * n + 2
  | .sleeping i => 4 * (n - i) + 1
  | .requesting i => 4 * (n - i)
  | .awaiting i => 4 * (n - i) - 2
  | .creating i _ _ => 4 * (n - i) - 3
  | .ended => 0

def GuestLoadBalance.left : GuestLoadBalance → Nat
  | .assigning => 1
  | _ => 0

def GetFinalize.left (numberOfVms : Nat) : GetFinalize → Nat
  | .collecting _ => 4 * numberOfVms + 7
  | .sleeping => 4 * numberOfVms + 6
  | .finishing 0 i => 2 * (numberOfVms - i) + 2 * numberOfVms + 5
  | .finishing 1 i => 2 * (numberOfVms - i) + 3
  | .finishing _ _ => 2
  | .sendingFinish 0 i => 2 * (numberOfVms - i) + 2 * numberOfVms + 4
  | .sendingFinish _ i => 2 * (numberOfVms - i) + 2
  | .sendingRequest => 2 * numberOfVms + 4
  | .setting => 1
  | .ended => 0

def HostLoadBalance.left : HostLoadBalance → Nat
  | .looping => 1
  | .ended => 0

def Processes.left (k : Simulation) (s : Processes) : Nat :=
  s.createTasks.left k.numberOfProcesses + s.guestLoadBalance.left + ∑ t ∈ k.taskIds, (s.tasks t).left +
    s.finalize.left k.numberOfVms + s.hostLoadBalance.left

/-- The steps of a simulation with `n` processes for each cluster. -/
def work (n numberOfVms : Nat) : Nat := 16 * n + 4 * numberOfVms + 10

/-- Every process has ended. -/
structure Complete (k : Simulation) (s : Processes) : Prop where
  createTasks : s.createTasks = .ended
  guestLoadBalance : s.guestLoadBalance = .ended
  tasks : ∀ t ∈ k.taskIds, s.tasks t = .finished
  listeners : ∀ v : Nat × Nat, v.1 < numberOfClusters → v.2 < k.vmList v.1 → s.listeners v = .ended
  finalize : s.finalize = .ended
  hostLoadBalance : s.hostLoadBalance = .ended

theorem start_left (k : Simulation) : k.start.left k ≤ work k.numberOfProcesses k.numberOfVms := by
  have tasks : ∑ t ∈ k.taskIds, (k.start.tasks t).left = 12 * k.numberOfProcesses := by
    rw [Finset.sum_const_nat fun t _ => show (k.start.tasks t).left = 6 from rfl]
    simp only [Simulation.taskIds,Finset.card_product,Finset.card_range,numberOfClusters]
    omega
  have host : k.start.hostLoadBalance.left ≤ 1 := by
    cases k.start.hostLoadBalance <;> decide
  simp only [Processes.left,tasks,work]
  simp only [Simulation.start,CreateTasks.left,GuestLoadBalance.left,GetFinalize.left] at host ⊢
  omega

theorem task_left {k : Simulation} {s : Processes} {t : Nat × Nat} (inside : t ∈ k.taskIds) (task : ProcessTask)
    (less : task.left + 1 = (s.tasks t).left) :
    ∑ u ∈ k.taskIds, (Function.update s.tasks t task u).left + 1 = ∑ u ∈ k.taskIds, (s.tasks u).left := by
  have moved := sum_update inside ProcessTask.left s.tasks task
  omega

/-- A step of `get_finalize` without a message. -/
theorem proceed_left {k : Simulation} {finalize next : GetFinalize} (within : finalize.Within k)
    (proceeds : finalize.proceed k = some next) : next.left k.numberOfVms + 1 = finalize.left k.numberOfVms := by
  rcases GetFinalize.proceed_cases proceeds with ⟨i, rfl, _, rfl⟩ | ⟨rfl, rfl⟩ | ⟨clusterId, i, rfl, last, rfl⟩ |
    ⟨i, rfl, all, rfl⟩ | ⟨rfl, rfl⟩
  · rfl
  · simp only [GetFinalize.left]
    omega
  · obtain ⟨cluster, _, _⟩ := within
    obtain rfl := Nat.le_antisymm cluster last
    rfl
  · simp only [GetFinalize.left]
    omega
  · rfl

/-- The loop over the clusters makes no step for itself: each process it creates is one. -/
theorem creating_left {k : Simulation} {i clusterId response home : Nat} (more : i < k.numberOfProcesses) :
    (if clusterId + 1 < numberOfClusters then CreateTasks.creating i (clusterId + 1) home
      else .sleeping (i + 1)).left k.numberOfProcesses =
        (CreateTasks.creating i clusterId response).left k.numberOfProcesses := by
  split
  · rfl
  · simp only [CreateTasks.left]
    omega

/-- Each productive step is one of the work. -/
theorem step_left {k : Simulation} {s next : Processes} {event : ProcessEvent} (orderly : Orderly k s)
    (steps : Steps k s event next) (counts : event.productive = true) : next.left k + 1 = s.left k := by
  have goes_on {t : Nat × Nat} {before : ProcessTask} (task : ProcessTask) (at_task : s.tasks t = before)
      (there : before ≠ .absent) (less : task.left + 1 = before.left) :
      ∑ u ∈ k.taskIds, (Function.update s.tasks t task u).left + 1 = ∑ u ∈ k.taskIds, (s.tasks u).left := by
    subst at_task
    exact task_left (orderly.created.inside there) task less
  have within := orderly.created.within
  have finishing_within := orderly.told.within
  cases steps with
  | idle event waits =>
    rcases waits with ⟨party, rfl⟩ | rfl
    · contradiction
    · contradiction
  | starts starting =>
    simp only [Processes.left,starting,CreateTasks.left]
    omega
  | asks i sleeping more =>
    simp only [Processes.left,sleeping,CreateTasks.left]
    omega
  | asked i requesting receives =>
    rw [requesting] at within
    simp only [CreateTasks.Within] at within
    simp only [Processes.left,requesting,receives,CreateTasks.left,GuestLoadBalance.left]
    omega
  | assigned marginalCost vmLoad dblMax home assigning =>
    simp only [Processes.left,assigning,GuestLoadBalance.left]
    omega
  | answered i home responding awaiting =>
    rw [awaiting] at within
    simp only [CreateTasks.Within] at within
    simp only [Processes.left,responding,awaiting,CreateTasks.left,GuestLoadBalance.left]
    omega
  | created i clusterId response home creating chosen inside =>
    obtain ⟨member, free⟩ := orderly.created.free creating
    have less := task_left (s := s) member .working (by rw [free]; rfl)
    rw [creating] at within
    obtain ⟨more, _⟩ := within
    have same := (@creating_left k i clusterId response home more).trans
      (congrArg (CreateTasks.left k.numberOfProcesses) creating.symm)
    simp only [Processes.left,same]
    omega
  | quits i sleeping all =>
    rw [sleeping] at within
    simp only [CreateTasks.Within] at within
    simp only [Processes.left,sleeping,CreateTasks.left]
    omega
  | executed t working =>
    have less := goes_on .executed working (by decide) rfl
    simp only [Processes.left]
    omega
  | sends t executed =>
    have less := goes_on .sending executed (by decide) rfl
    simp only [Processes.left]
    omega
  | sent t sending =>
    have less := goes_on .sent sending (by decide) rfl
    simp only [Processes.left]
    omega
  | reports t sent =>
    have less := goes_on .sendingFin sent (by decide) rfl
    simp only [Processes.left]
    omega
  | reported t i sendingFin collecting =>
    have less := goes_on .finished sendingFin (by decide) rfl
    simp only [Processes.left,collecting,GetFinalize.left]
    omega
  | finishes clusterId i finishing cluster more =>
    obtain rfl | rfl : clusterId = 0 ∨ clusterId = 1 := by
      simp only [numberOfClusters] at cluster
      omega
    all_goals
      simp only [Processes.left,finishing,GetFinalize.left]
      omega
  | told clusterId i sending =>
    rw [sending] at finishing_within
    obtain ⟨cluster, more⟩ := finishing_within
    obtain rfl | rfl : clusterId = 0 ∨ clusterId = 1 := by
      simp only [numberOfClusters] at cluster
      omega
    all_goals
      simp only [Processes.left,sending,GetFinalize.left]
      omega
  | closes i finishing all =>
    simp only [Processes.left,finishing,GetFinalize.left]
    omega
  | closed sending receives =>
    simp only [Processes.left,sending,receives,GetFinalize.left,GuestLoadBalance.left]
    omega
  | proceeds finalize proceeds =>
    have less := proceed_left finishing_within proceeds
    simp only [Processes.left]
    omega
  | stops looping finished =>
    simp only [Processes.left,looping,HostLoadBalance.left]

theorem processStep_descends (k : Simulation) :
    Descends (processStep k) ProcessEvent.productive (Orderly k) (Processes.left k) where
  kept _ _ _ orderly taken := step_orderly orderly taken
  lowers s event next orderly taken counts := by
    have less := step_left orderly (processStep_steps taken) counts
    omega
  keeps s event next _ taken idle := by
    cases event with
    | retry party =>
      obtain ⟨_, _, rfl⟩ := Option.map_eq_some_iff.mp taken
      exact Nat.le_refl _
    | scan =>
      cases processStep_steps taken
      exact Nat.le_refl _
    | _ => contradiction

theorem targetMailbox_lt {k : Simulation} (some_vm : 0 < k.numberOfVms) (i : Nat) :
    k.targetMailbox i < k.numberOfVms := by
  have positive : (0 : ℚ) < k.numberOfVms := Nat.cast_pos.mpr some_vm
  rw [Simulation.targetMailbox,Nat.floor_lt (mul_nonneg (k.targets i).nonneg positive.le)]
  exact mul_lt_of_lt_one_left positive (k.targets i).below

/-- While a process is missing, `get_finalize` waits for it and all listeners are there. -/
theorem Orderly.early {k : Simulation} {s : Processes} (orderly : Orderly k s) {t : Nat × Nat}
    (inside : t ∈ k.taskIds) (unfinished : s.tasks t ≠ .finished) :
    (∃ i < numberOfClusters * k.numberOfProcesses, s.finalize = .collecting i) ∧
      ∀ v, s.listeners v = .receiving := by
  have counted := fins_update .finished inside unfinished
  have most := fins_le k (Function.update s.tasks t .finished)
  rw [counted,orderly.heard] at most
  have collecting : ∃ i < numberOfClusters * k.numberOfProcesses, s.finalize = .collecting i := by
    cases is : s.finalize with
    | collecting i =>
      rw [is] at most
      exact ⟨i, most, rfl⟩
    | _ =>
      rw [is] at most
      exact absurd most (Nat.not_succ_le_self _)
  refine ⟨collecting, fun v => ?_⟩
  obtain ⟨i, _, is⟩ := collecting
  cases hears : s.listeners v with
  | receiving => rfl
  | ended =>
    have told := (orderly.told.told v).mp hears
    rw [is] at told
    contradiction

section Exhausted

variable {k : Simulation} {s : Processes}

/-- With all VMs there, `create_tasks` gets through. -/
theorem createTasks_ends (orderly : Orderly k s) (exhausted : Exhausted (processStep k) ProcessEvent.productive s)
    (full : ∀ clusterId < numberOfClusters, k.vmList clusterId = k.numberOfVms)
    (some_vm : 0 < k.numberOfProcesses → 0 < k.numberOfVms) : s.createTasks = .ended := by
  have within := orderly.created.within
  have exchange := orderly.exchanged.exchange
  cases is : s.createTasks with
  | ended => rfl
  | starting =>
    have stuck := exhausted .start rfl
    simp [processStep,is] at stuck
  | sleeping i =>
    by_cases more : i < k.numberOfProcesses
    · have stuck := exhausted (.send .createTasks) rfl
      simp [processStep,Processes.call,is,more] at stuck
    · have stuck := exhausted .quit rfl
      simp [processStep,is,more] at stuck
  | requesting i =>
    rw [is] at within exchange
    have inside : (0, i) ∈ k.taskIds := by
      simpa [Simulation.taskIds,numberOfClusters,CreateTasks.Within] using within
    have missing : s.tasks (0, i) ≠ .finished := by
      intro finished
      have past := ((orderly.created.past (0, i)).mp (by simp [finished])).2
      rw [is] at past
      exact absurd past (Nat.lt_irrefl i)
    obtain ⟨⟨j, _, collecting⟩, _⟩ := orderly.early inside missing
    rcases exchange with receives | ended
    · have stuck := exhausted (.transfer .createTasks) rfl
      simp [processStep,Processes.blocked,Processes.receive,is,receives] at stuck
    · have closed := orderly.closed.mp ended
      rw [collecting] at closed
      contradiction
  | awaiting i =>
    rw [is] at exchange
    rcases exchange with assigning | ⟨home, responding⟩
    · have stuck := exhausted (.assign (fun _ => 0) (fun _ => 0) 0) rfl
      simp [processStep,assigning] at stuck
    · have stuck := exhausted (.transfer .guestLoadBalance) rfl
      simp [processStep,Processes.blocked,Processes.receive,is,responding] at stuck
  | creating i clusterId response =>
    rw [is] at within
    obtain ⟨more, cluster, answers⟩ := within
    have positive := some_vm (Nat.zero_lt_of_lt more)
    obtain ⟨home, chosen, inside⟩ :
        ∃ home, k.homeVm i clusterId response = some home ∧ home < k.vmList clusterId := by
      rw [full clusterId cluster]
      by_cases first : clusterId = 0
      · refine ⟨response, if_pos first, ?_⟩
        have answered := answers first
        rw [Simulation.Answers,full 0 Nat.zero_lt_two] at answered
        omega
      · refine ⟨i % k.numberOfVms, ?_, Nat.mod_lt i positive⟩
        rw [Simulation.homeVm,if_neg first,if_neg (Nat.pos_iff_ne_zero.mp positive)]
    have stuck := exhausted .create rfl
    simp [processStep,createProcess,is,chosen,inside] at stuck

theorem tasks_end (orderly : Orderly k s) (exhausted : Exhausted (processStep k) ProcessEvent.productive s)
    (full : ∀ clusterId < numberOfClusters, k.vmList clusterId = k.numberOfVms)
    (some_vm : 0 < k.numberOfProcesses → 0 < k.numberOfVms) (created : s.createTasks = .ended) :
    ∀ t ∈ k.taskIds, s.tasks t = .finished := by
  intro t inside
  by_contra unfinished
  obtain ⟨⟨i, more, collecting⟩, listens⟩ := orderly.early inside unfinished
  obtain ⟨cluster, number⟩ : t.1 < numberOfClusters ∧ t.2 < k.numberOfProcesses := by
    simpa [Simulation.taskIds] using inside
  cases is : s.tasks t with
  | finished => exact unfinished is
  | absent => exact (orderly.created.past t).mpr ⟨inside, by rw [created]; trivial⟩ is
  | working =>
    have stuck := exhausted (.execute t) rfl
    simp [processStep,is] at stuck
  | executed =>
    have stuck := exhausted (.send (.task t)) rfl
    simp [processStep,Processes.call,is] at stuck
  | sending =>
    have target := targetMailbox_lt (some_vm (Nat.zero_lt_of_lt number)) t.2
    rw [← full t.1 cluster] at target
    have stuck := exhausted (.transfer (.task t)) rfl
    simp [processStep,Processes.blocked,Processes.receive,is,created,cluster,target,listens] at stuck
  | sent =>
    have stuck := exhausted (.send (.task t)) rfl
    simp [processStep,Processes.call,is] at stuck
  | sendingFin =>
    have stuck := exhausted (.transfer (.task t)) rfl
    simp [processStep,Processes.blocked,Processes.receive,is,collecting,more] at stuck

theorem finalize_ends (orderly : Orderly k s) (exhausted : Exhausted (processStep k) ProcessEvent.productive s)
    (full : ∀ clusterId < numberOfClusters, k.vmList clusterId = k.numberOfVms) (created : s.createTasks = .ended)
    (everyone : ∀ t ∈ k.taskIds, s.tasks t = .finished) : s.finalize = .ended := by
  have heard := orderly.heard
  have fins : ∑ t ∈ k.taskIds, (s.tasks t).fin = numberOfClusters * k.numberOfProcesses := by
    rw [Finset.sum_const_nat fun t inside => show (s.tasks t).fin = 1 by rw [everyone t inside]; rfl]
    simp [Simulation.taskIds]
  rw [Heard,fins] at heard
  have within := orderly.told.within
  cases is : s.finalize with
  | ended => rfl
  | collecting i =>
    rw [is] at heard
    have stuck := exhausted .proceed rfl
    simp [processStep,GetFinalize.proceed,is,heard,GetFinalize.fins] at stuck
  | sleeping =>
    have stuck := exhausted .proceed rfl
    simp [processStep,GetFinalize.proceed,is] at stuck
  | finishing clusterId i =>
    by_cases last : numberOfClusters ≤ clusterId
    · have stuck := exhausted .proceed rfl
      simp [processStep,GetFinalize.proceed,is,last] at stuck
    · have cluster := Nat.lt_of_not_le last
      by_cases unfinished : i < k.numberOfVms ∨ clusterId = 0
      · have stuck := exhausted (.send .finalize) rfl
        rcases unfinished with more | rfl
        · simp [processStep,Processes.call,is,cluster,more] at stuck
        · by_cases more : i < k.numberOfVms <;> simp [processStep,Processes.call,is,last,more] at stuck
      · have stuck := exhausted .proceed rfl
        simp [processStep,GetFinalize.proceed,is,last,unfinished] at stuck
  | sendingFinish clusterId i =>
    rw [is] at within
    obtain ⟨cluster, more⟩ := within
    have listens : s.listeners (clusterId, i) = .receiving := by
      cases hears : s.listeners (clusterId, i) with
      | receiving => rfl
      | ended =>
        have told := (orderly.told.told _).mp hears
        rw [is] at told
        simp [GetFinalize.Told] at told
    rw [← full clusterId cluster] at more
    have stuck := exhausted (.transfer .finalize) rfl
    simp [processStep,Processes.blocked,Processes.receive,is,created,cluster,more,listens] at stuck
  | sendingRequest =>
    have exchange := orderly.exchanged.exchange
    rw [created] at exchange
    rcases exchange with receives | ended
    · have stuck := exhausted (.transfer .finalize) rfl
      simp [processStep,Processes.blocked,Processes.receive,is,receives] at stuck
    · have closed := orderly.closed.mp ended
      rw [is] at closed
      contradiction
  | setting =>
    have stuck := exhausted .proceed rfl
    simp [processStep,GetFinalize.proceed,is] at stuck

end Exhausted

/-- What ends, ends because there was a listener for each VM that was told of. -/
theorem Complete.full {k : Simulation} {s : Processes} (complete : Complete k s) (orderly : Orderly k s) :
    (∀ clusterId < numberOfClusters, k.vmList clusterId = k.numberOfVms) ∧
      (0 < k.numberOfProcesses → 0 < k.numberOfVms) := by
  have told := orderly.told.told
  rw [complete.finalize] at told
  have full (clusterId : Nat) (cluster : clusterId < numberOfClusters) :
      k.vmList clusterId = k.numberOfVms := by
    refine Nat.le_antisymm (Nat.le_of_not_lt fun more => ?_) (Nat.le_of_not_lt fun fewer => ?_)
    · have ended := (told (clusterId, k.numberOfVms)).mp (complete.listeners _ cluster more)
      exact absurd ended.2 (Nat.lt_irrefl _)
    · have ended := (told (clusterId, k.vmList clusterId)).mpr ⟨cluster, fewer⟩
      exact absurd (orderly.told.listened _ ended) (Nat.lt_irrefl _)
  refine ⟨full, fun some_process => ?_⟩
  have finished := complete.tasks (0, 0) (by simp [Simulation.taskIds,numberOfClusters,some_process])
  rw [← full 0 Nat.zero_lt_two]
  exact orderly.created.homed (0, 0) (by simp [finished])

/-- The runs of a simulation are bounded, and all that cannot be extended come to the end exactly if each
cluster has the VMs that the processes are told of. -/
theorem completes_iff (k : Simulation) :
    (∀ events s, Runs.run (processStep k) k.start events = some s →
      events.countP ProcessEvent.productive ≤ work k.numberOfProcesses k.numberOfVms) ∧
    ((∀ events s, Runs.run (processStep k) k.start events = some s →
        Exhausted (processStep k) ProcessEvent.productive s → Complete k s) ↔
      (∀ clusterId < numberOfClusters, k.vmList clusterId = k.numberOfVms) ∧
        (0 < k.numberOfProcesses → 0 < k.numberOfVms)) := by
  have descends := processStep_descends k
  refine ⟨fun events s reached => ?_, fun completes => ?_, ?_⟩
  · have bound := descends.run_le (start_orderly k) reached
    have whole := start_left k
    omega
  · obtain ⟨events, s, reached, exhausted⟩ := descends.exhausts (start_orderly k)
    exact (completes events s reached exhausted).full (run_orderly reached)
  · rintro ⟨full, some_vm⟩ events s reached exhausted
    have orderly := run_orderly reached
    have created := createTasks_ends orderly exhausted full some_vm
    have everyone := tasks_end orderly exhausted full some_vm created
    have finalized := finalize_ends orderly exhausted full created everyone
    have closed : s.guestLoadBalance = .ended := orderly.closed.mpr (by rw [finalized]; trivial)
    refine ⟨created, closed, everyone, fun v cluster inside => ?_, finalized, ?_⟩
    · rw [full v.1 cluster] at inside
      exact (orderly.told.told v).mpr (by rw [finalized]; exact ⟨cluster, inside⟩)
    · cases is : s.hostLoadBalance with
      | ended => rfl
      | looping =>
        have stuck := exhausted .stop rfl
        simp [processStep,is,finalized] at stuck

end Hpvc.Project
