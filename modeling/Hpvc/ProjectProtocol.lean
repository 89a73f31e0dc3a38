import Hpvc.Library.Progress
import Hpvc.ProjectProcesses
import Mathlib.Algebra.Order.BigOperators.Group.Finset

/-! What the processes of simgrid-project owe each other: `create_tasks` gets one response for each request,
`get_finalize` hears of every process, and only then ends the listeners and the load balancer. -/
namespace Hpvc.Project

/-- What each event needs and leads to. A send that fails, and a round of the host load balancer, lead
nowhere. -/
inductive Steps (k : Simulation) (s : Processes) : ProcessEvent → Processes → Prop where
  | idle (event : ProcessEvent) (waits : (∃ party, event = .retry party) ∨ event = .scan) : Steps k s event s
  | starts (starting : s.createTasks = .starting) : Steps k s .start { s with createTasks := .sleeping 0 }
  | asks (i : Nat) (sleeping : s.createTasks = .sleeping i) (more : i < k.numberOfProcesses) :
      Steps k s (.send .createTasks) { s with createTasks := .requesting i }
  | asked (i : Nat) (requesting : s.createTasks = .requesting i) (receives : s.guestLoadBalance = .receiving) :
      Steps k s (.transfer .createTasks) { s with createTasks := .awaiting i, guestLoadBalance := .assigning }
  | assigned (marginalCost : Nat → ℚ) (vmLoad : Nat → Nat) (dblMax : ℚ) (home : Nat)
      (assigning : s.guestLoadBalance = .assigning)
      (is : home = (GuestScan.assign marginalCost vmLoad (k.vmList 0) dblMax s.selectedVmNumber).selectedVmNumber) :
      Steps k s (.assign marginalCost vmLoad dblMax)
        { s with guestLoadBalance := .responding home, selectedVmNumber := home }
  | answered (i home : Nat) (responding : s.guestLoadBalance = .responding home)
      (awaiting : s.createTasks = .awaiting i) :
      Steps k s (.transfer .guestLoadBalance)
        { s with guestLoadBalance := .receiving, createTasks := .creating i 0 home }
  | created (i clusterId response home : Nat) (creating : s.createTasks = .creating i clusterId response)
      (chosen : k.homeVm i clusterId response = some home) (inside : home < k.vmList clusterId) :
      Steps k s .create
        { s with
          tasks := Function.update s.tasks (clusterId, i) .working
          createTasks :=
            if clusterId + 1 < numberOfClusters then .creating i (clusterId + 1) home else .sleeping (i + 1) }
  | quits (i : Nat) (sleeping : s.createTasks = .sleeping i) (all : k.numberOfProcesses ≤ i) :
      Steps k s .quit { s with createTasks := .ended }
  | executed (t : Nat × Nat) (working : s.tasks t = .working) :
      Steps k s (.execute t) { s with tasks := Function.update s.tasks t .executed }
  | sends (t : Nat × Nat) (executed : s.tasks t = .executed) :
      Steps k s (.send (.task t)) { s with tasks := Function.update s.tasks t .sending }
  | sent (t : Nat × Nat) (sending : s.tasks t = .sending) (running : s.createTasks ≠ .starting)
      (inside : k.targetMailbox t.2 < k.vmList t.1)
      (receives : s.listeners (t.1, k.targetMailbox t.2) = .receiving) :
      Steps k s (.transfer (.task t)) { s with tasks := Function.update s.tasks t .sent }
  | reports (t : Nat × Nat) (sent : s.tasks t = .sent) :
      Steps k s (.send (.task t)) { s with tasks := Function.update s.tasks t .sendingFin }
  | reported (t : Nat × Nat) (i : Nat) (sendingFin : s.tasks t = .sendingFin) (collecting : s.finalize = .collecting i)
      (more : i < numberOfClusters * k.numberOfProcesses) :
      Steps k s (.transfer (.task t))
        { s with tasks := Function.update s.tasks t .finished, finalize := .collecting (i + 1) }
  | finishes (clusterId i : Nat) (finishing : s.finalize = .finishing clusterId i)
      (cluster : clusterId < numberOfClusters) (more : i < k.numberOfVms) :
      Steps k s (.send .finalize) { s with finalize := .sendingFinish clusterId i }
  | told (clusterId i : Nat) (sending : s.finalize = .sendingFinish clusterId i) (inside : i < k.vmList clusterId)
      (receives : s.listeners (clusterId, i) = .receiving) :
      Steps k s (.transfer .finalize)
        { s with
          finalize := .finishing clusterId (i + 1)
          listeners := Function.update s.listeners (clusterId, i) .ended }
  | closes (i : Nat) (finishing : s.finalize = .finishing 0 i) (all : k.numberOfVms ≤ i) :
      Steps k s (.send .finalize) { s with finalize := .sendingRequest }
  | closed (sending : s.finalize = .sendingRequest) (receives : s.guestLoadBalance = .receiving) :
      Steps k s (.transfer .finalize) { s with finalize := .finishing 1 0, guestLoadBalance := .ended }
  | proceeds (finalize : GetFinalize) (goes_on : s.finalize.proceed k = some finalize) :
      Steps k s .proceed { s with finalize }
  | stops (looping : s.hostLoadBalance = .looping) (finished : s.finalize = .ended) :
      Steps k s .stop { s with hostLoadBalance := .ended }

/-- Who receives on the mailbox of a VM. -/
theorem receive_vm {k : Simulation} {s next : Processes} {clusterId v : Nat} {data : Data}
    (received : s.receive k ⟨.vm clusterId v, data⟩ = some next) :
    s.createTasks ≠ .starting ∧ clusterId < numberOfClusters ∧ v < k.vmList clusterId ∧
      s.listeners (clusterId, v) = .receiving ∧
      next = { s with listeners := Function.update s.listeners (clusterId, v) (processMailbox data) } := by
  simp only [Processes.receive] at received
  split at received
  next => contradiction
  next running =>
    split at received
    next able =>
      cases received
      exact ⟨running, able.1, able.2.1, able.2.2, rfl⟩
    next => contradiction

theorem send_steps {k : Simulation} {s next : Processes} {party : Party}
    (taken : processStep k s (.send party) = some next) : Steps k s (.send party) next := by
  obtain ⟨⟨message, mid⟩, calls, rfl⟩ := Option.map_eq_some_iff.mp taken
  cases party with
  | createTasks =>
    simp only [Processes.call] at calls
    split at calls
    next i sleeping =>
      split at calls
      next more =>
        cases calls
        exact .asks i sleeping more
      next => contradiction
    next => contradiction
  | guestLoadBalance => contradiction
  | task t =>
    simp only [Processes.call] at calls
    split at calls
    next executed =>
      cases calls
      exact .sends t executed
    next sent =>
      cases calls
      exact .reports t sent
    next => contradiction
  | finalize =>
    simp only [Processes.call] at calls
    split at calls
    next clusterId i finishing =>
      split at calls
      next => contradiction
      next cluster =>
        split at calls
        next more =>
          cases calls
          exact .finishes clusterId i finishing (Nat.lt_of_not_le cluster) more
        next all =>
          split at calls
          next zero =>
            cases calls
            exact .closes i (zero ▸ finishing) (Nat.le_of_not_lt all)
          next => contradiction
    next => contradiction

theorem transfer_steps {k : Simulation} {s next : Processes} {party : Party}
    (taken : processStep k s (.transfer party) = some next) : Steps k s (.transfer party) next := by
  obtain ⟨⟨message, mid⟩, blocked, received⟩ := Option.bind_eq_some_iff.mp taken
  cases party with
  | createTasks =>
    simp only [Processes.blocked] at blocked
    split at blocked
    next i requesting =>
      cases blocked
      simp only [Processes.receive] at received
      split at received
      next receives =>
        cases received
        exact .asked i requesting receives
      next => contradiction
    next => contradiction
  | guestLoadBalance =>
    simp only [Processes.blocked] at blocked
    split at blocked
    next home responding =>
      cases blocked
      simp only [Processes.receive] at received
      split at received
      next i _ awaiting is =>
        cases is
        cases received
        exact .answered i home responding awaiting
      next => contradiction
    next => contradiction
  | task t =>
    simp only [Processes.blocked] at blocked
    split at blocked
    next sending =>
      cases blocked
      obtain ⟨running, _, inside, receives, rfl⟩ := receive_vm received
      have same : Function.update s.listeners (t.1, k.targetMailbox t.2) (processMailbox .null) = s.listeners := by
        have goes_on : processMailbox .null = s.listeners (t.1, k.targetMailbox t.2) := receives.symm
        rw [goes_on,Function.update_eq_self]
      have moved := Steps.sent (k := k) (s := s) t sending running inside receives
      rwa [same]
    next sendingFin =>
      cases blocked
      simp only [Processes.receive] at received
      split at received
      next i collecting =>
        split at received
        next more =>
          cases received
          exact .reported t i sendingFin collecting more
        next => contradiction
      next => contradiction
    next => contradiction
  | finalize =>
    simp only [Processes.blocked] at blocked
    split at blocked
    next clusterId i sending =>
      cases blocked
      obtain ⟨_, _, inside, receives, rfl⟩ := receive_vm received
      exact .told clusterId i sending inside receives
    next sending =>
      cases blocked
      simp only [Processes.receive] at received
      split at received
      next receives =>
        cases received
        exact .closed sending receives
      next => contradiction
    next => contradiction

theorem processStep_steps {k : Simulation} {s next : Processes} {event : ProcessEvent}
    (taken : processStep k s event = some next) : Steps k s event next := by
  cases event with
  | start =>
    simp only [processStep] at taken
    split at taken
    next starting =>
      cases taken
      exact .starts starting
    next => contradiction
  | assign marginalCost vmLoad dblMax =>
    simp only [processStep] at taken
    split at taken
    next assigning =>
      cases taken
      exact .assigned marginalCost vmLoad dblMax _ assigning rfl
    next => contradiction
  | create =>
    simp only [processStep,createProcess] at taken
    split at taken
    next i clusterId response creating =>
      obtain ⟨home, chosen, taken⟩ := Option.bind_eq_some_iff.mp taken
      split at taken
      next inside =>
        cases taken
        exact .created i clusterId response home creating chosen inside
      next => contradiction
    next => contradiction
  | quit =>
    simp only [processStep] at taken
    split at taken
    next i sleeping =>
      split at taken
      next => contradiction
      next all =>
        cases taken
        exact .quits i sleeping (Nat.le_of_not_lt all)
    next => contradiction
  | execute t =>
    simp only [processStep] at taken
    split at taken
    next working =>
      cases taken
      exact .executed t working
    next => contradiction
  | send party => exact send_steps taken
  | retry party =>
    obtain ⟨_, _, rfl⟩ := Option.map_eq_some_iff.mp taken
    exact .idle _ (.inl ⟨party, rfl⟩)
  | transfer party => exact transfer_steps taken
  | proceed =>
    obtain ⟨finalize, goes_on, rfl⟩ := Option.map_eq_some_iff.mp taken
    exact .proceeds finalize goes_on
  | scan =>
    simp only [processStep] at taken
    split at taken
    next => contradiction
    next =>
      cases taken
      exact .idle _ (.inr rfl)
    next => contradiction
  | stop =>
    simp only [processStep] at taken
    split at taken
    next looping finished =>
      cases taken
      exact .stops looping finished
    next => contradiction

/-- The tasks that a simulation creates. -/
def Simulation.taskIds (k : Simulation) : Finset (Nat × Nat) :=
  Finset.range numberOfClusters ×ˢ Finset.range k.numberOfProcesses

/-- The first VMs of the load balancer's cluster; it says VM 0 even if there is none. -/
def Simulation.Answers (k : Simulation) (home : Nat) : Prop := home < max 1 (k.vmList 0)

/-- The tasks that `create_tasks` has created. -/
def CreateTasks.Past : CreateTasks → Nat × Nat → Prop
  | .starting, _ => False
  | .sleeping i, t => t.2 < i
  | .requesting i, t => t.2 < i
  | .awaiting i, t => t.2 < i
  | .creating i clusterId _, t => t.2 < i ∨ t.2 = i ∧ t.1 < clusterId
  | .ended, _ => True

/-- The counters of `create_tasks`. -/
def CreateTasks.Within (k : Simulation) : CreateTasks → Prop
  | .sleeping i => i ≤ k.numberOfProcesses
  | .requesting i => i < k.numberOfProcesses
  | .awaiting i => i < k.numberOfProcesses
  | .creating i clusterId home =>
    i < k.numberOfProcesses ∧ clusterId < numberOfClusters ∧ (clusterId = 0 → k.Answers home)
  | _ => True

structure Created (k : Simulation) (s : Processes) : Prop where
  within : s.createTasks.Within k
  past : ∀ t, s.tasks t ≠ .absent ↔ t ∈ k.taskIds ∧ s.createTasks.Past t
  homed : ∀ t, s.tasks t ≠ .absent → 0 < k.vmList t.1

/-- A request is with the load balancer exactly while `create_tasks` waits for the response. -/
def Exchange : CreateTasks → GuestLoadBalance → Prop
  | .awaiting _, balance => balance = .assigning ∨ ∃ home, balance = .responding home
  | _, balance => balance = .receiving ∨ balance = .ended

structure Exchanged (k : Simulation) (s : Processes) : Prop where
  exchange : Exchange s.createTasks s.guestLoadBalance
  selected : k.Answers s.selectedVmNumber
  responding : ∀ home, s.guestLoadBalance = .responding home → k.Answers home

/-- The processes `get_finalize` has heard of. -/
def GetFinalize.fins (k : Simulation) : GetFinalize → Nat
  | .collecting i => i
  | _ => numberOfClusters * k.numberOfProcesses

def ProcessTask.fin (task : ProcessTask) : Nat := if task = .finished then 1 else 0

def Heard (k : Simulation) (s : Processes) : Prop :=
  ∑ t ∈ k.taskIds, (s.tasks t).fin = s.finalize.fins k

/-- The listeners `get_finalize` has ended. -/
def GetFinalize.Told (k : Simulation) : GetFinalize → Nat × Nat → Prop
  | .collecting _, _ => False
  | .sleeping, _ => False
  | .finishing clusterId i, v => v.1 < clusterId ∧ v.2 < k.numberOfVms ∨ v.1 = clusterId ∧ v.2 < i
  | .sendingFinish clusterId i, v => v.1 < clusterId ∧ v.2 < k.numberOfVms ∨ v.1 = clusterId ∧ v.2 < i
  | .sendingRequest, v => v.1 = 0 ∧ v.2 < k.numberOfVms
  | _, v => v.1 < numberOfClusters ∧ v.2 < k.numberOfVms

/-- The counters of `get_finalize`. -/
def GetFinalize.Within (k : Simulation) : GetFinalize → Prop
  | .finishing clusterId i =>
    clusterId ≤ numberOfClusters ∧ i ≤ k.numberOfVms ∧ (clusterId = numberOfClusters → i = 0)
  | .sendingFinish clusterId i => clusterId < numberOfClusters ∧ i < k.numberOfVms
  | _ => True

structure Told (k : Simulation) (s : Processes) : Prop where
  within : s.finalize.Within k
  told : ∀ v, s.listeners v = .ended ↔ s.finalize.Told k v
  listened : ∀ v, s.listeners v = .ended → v.2 < k.vmList v.1

/-- `get_finalize` has closed the load balancer. -/
def GetFinalize.Closed : GetFinalize → Prop
  | .finishing clusterId _ => clusterId ≠ 0
  | .sendingFinish clusterId _ => clusterId ≠ 0
  | .setting => True
  | .ended => True
  | _ => False

/-- What holds in every state. -/
structure Orderly (k : Simulation) (s : Processes) : Prop where
  created : Created k s
  exchanged : Exchanged k s
  heard : Heard k s
  told : Told k s
  closed : s.guestLoadBalance = .ended ↔ s.finalize.Closed

/-- A turn of the scan selects one of the VMs, or what was selected before. -/
theorem turns_answers {k : Simulation} (marginalCost : Nat → ℚ) (vmLoad : Nat → Nat) (count : Nat)
    (some_vm : 0 < count → 0 < k.vmList 0) (scan : GuestScan.Scan ℚ) (before : k.Answers scan.selectedVmNumber) :
    k.Answers (GuestScan.turns marginalCost vmLoad (k.vmList 0) count scan).selectedVmNumber := by
  induction count generalizing scan with
  | zero => exact before
  | succ count ih =>
    have positive := some_vm (Nat.succ_pos count)
    refine ih (fun _ => positive) _ ?_
    unfold GuestScan.turn
    dsimp only
    have inside : k.Answers (if k.vmList 0 ≤ scan.i then 0 else scan.i) := by
      unfold Simulation.Answers
      split <;> omega
    generalize (if k.vmList 0 ≤ scan.i then 0 else scan.i) = i at inside ⊢
    split
    · exact inside
    · exact before

theorem assign_answers {k : Simulation} {selected : Nat} (before : k.Answers selected) (marginalCost : Nat → ℚ)
    (vmLoad : Nat → Nat) (dblMax : ℚ) :
    k.Answers (GuestScan.assign marginalCost vmLoad (k.vmList 0) dblMax selected).selectedVmNumber :=
  turns_answers marginalCost vmLoad _ id _ before

theorem start_orderly (k : Simulation) : Orderly k k.start where
  created := by
    refine ⟨trivial, fun t => ?_, fun t exists_task => absurd rfl exists_task⟩
    simp [Simulation.start,CreateTasks.Past]
  exchanged := by
    refine ⟨.inl rfl, ?_, fun _ => GuestLoadBalance.noConfusion⟩
    simp [Simulation.Answers,Simulation.start]
  heard := by simp [Heard,Simulation.start,ProcessTask.fin,GetFinalize.fins]
  told := by
    refine ⟨trivial, fun v => ?_, fun v => Listener.noConfusion⟩
    simp [Simulation.start,GetFinalize.Told]
  closed := by simp [Simulation.start,GetFinalize.Closed]

theorem GetFinalize.proceed_cases {k : Simulation} {finalize next : GetFinalize}
    (proceeds : finalize.proceed k = some next) :
    (∃ i, finalize = .collecting i ∧ numberOfClusters * k.numberOfProcesses ≤ i ∧ next = .sleeping) ∨
      (finalize = .sleeping ∧ next = .finishing 0 0) ∨
      (∃ clusterId i, finalize = .finishing clusterId i ∧ numberOfClusters ≤ clusterId ∧ next = .setting) ∨
      (∃ i, finalize = .finishing 1 i ∧ k.numberOfVms ≤ i ∧ next = .finishing 2 0) ∨
      (finalize = .setting ∧ next = .ended) := by
  cases finalize with
  | collecting i =>
    simp only [GetFinalize.proceed] at proceeds
    split at proceeds
    next => contradiction
    next counted =>
      cases proceeds
      exact .inl ⟨i, rfl, Nat.le_of_not_lt counted, rfl⟩
  | sleeping =>
    cases proceeds
    exact .inr (.inl ⟨rfl, rfl⟩)
  | finishing clusterId i =>
    simp only [GetFinalize.proceed] at proceeds
    split at proceeds
    next last =>
      cases proceeds
      exact .inr (.inr (.inl ⟨clusterId, i, rfl, last, rfl⟩))
    next more =>
      split at proceeds
      next => contradiction
      next through =>
        cases proceeds
        simp only [numberOfClusters] at more
        obtain rfl : clusterId = 1 := by omega
        exact .inr (.inr (.inr (.inl ⟨i, rfl, by omega, rfl⟩)))
  | setting =>
    cases proceeds
    exact .inr (.inr (.inr (.inr ⟨rfl, rfl⟩)))
  | sendingFinish clusterId i => contradiction
  | sendingRequest => contradiction
  | ended => contradiction

/-- A task that exists goes on. -/
theorem Created.goes_on {k : Simulation} {s next : Processes} (created : Created k s) {t : Nat × Nat}
    {task : ProcessTask} (exists_task : s.tasks t ≠ .absent) (there : task ≠ .absent)
    (tasks : next.tasks = Function.update s.tasks t task) (same : next.createTasks = s.createTasks) :
    Created k next := by
  have kept (u : Nat × Nat) : next.tasks u ≠ .absent ↔ s.tasks u ≠ .absent := by
    rw [tasks]
    by_cases here : u = t
    · subst here
      simp [exists_task,there]
    · rw [Function.update_of_ne here]
  refine ⟨same ▸ created.within, fun u => ?_, fun u exists_next => created.homed u ((kept u).mp exists_next)⟩
  rw [kept,same]
  exact created.past u

/-- Before a task is created, its place is free. -/
theorem step_created {k : Simulation} {s next : Processes} {event : ProcessEvent} (orderly : Orderly k s)
    (steps : Steps k s event next) : Created k next := by
  obtain ⟨within, past, homed⟩ := orderly.created
  cases steps with
  | idle => exact orderly.created
  | starts starting =>
    refine ⟨Nat.zero_le _, fun t => ?_, homed⟩
    rw [past,starting]
    simp [CreateTasks.Past]
  | asks i sleeping more =>
    rw [sleeping] at past
    exact ⟨more, past, homed⟩
  | asked i requesting receives =>
    rw [requesting] at within past
    exact ⟨within, past, homed⟩
  | assigned => exact ⟨within, past, homed⟩
  | answered i home responding awaiting =>
    rw [awaiting] at within past
    refine ⟨⟨within, Nat.zero_lt_two, fun _ => orderly.exchanged.responding home responding⟩, fun t => ?_, homed⟩
    rw [past]
    simp [CreateTasks.Past]
  | created i clusterId response home creating chosen inside =>
    rw [creating] at within past
    obtain ⟨more, cluster, answers⟩ := within
    have is_new (t : Nat × Nat) : Function.update s.tasks (clusterId, i) .working t ≠ .absent ↔
        t = (clusterId, i) ∨ s.tasks t ≠ .absent := by
      by_cases here : t = (clusterId, i)
      · subst here
        simp
      · rw [Function.update_of_ne here,or_iff_right here]
    refine ⟨?_, fun t => ?_, fun t exists_next => ?_⟩
    · dsimp only
      split
      next another => exact ⟨more, another, fun zero => absurd zero (Nat.succ_ne_zero _)⟩
      next => exact more
    · rw [is_new,past]
      obtain ⟨otherCluster, j⟩ := t
      simp only [numberOfClusters] at cluster
      dsimp only
      split
      all_goals
        simp only [CreateTasks.Past,Simulation.taskIds,Finset.mem_product,Finset.mem_range,Prod.mk.injEq,
          numberOfClusters] at *
        omega
    · rcases (is_new t).mp exists_next with rfl | before
      · exact Nat.zero_lt_of_lt inside
      · exact homed t before
  | quits i sleeping all =>
    rw [sleeping] at within past
    refine ⟨trivial, fun t => ?_, homed⟩
    rw [past]
    simp only [CreateTasks.Past,CreateTasks.Within,Simulation.taskIds,Finset.mem_product,Finset.mem_range,
      and_true] at within ⊢
    omega
  | executed t working => exact orderly.created.goes_on (by simp [working]) (by decide) rfl rfl
  | sends t executed => exact orderly.created.goes_on (by simp [executed]) (by decide) rfl rfl
  | sent t sending => exact orderly.created.goes_on (by simp [sending]) (by decide) rfl rfl
  | reports t sent => exact orderly.created.goes_on (by simp [sent]) (by decide) rfl rfl
  | reported t i sendingFin => exact orderly.created.goes_on (by simp [sendingFin]) (by decide) rfl rfl
  | finishes => exact ⟨within, past, homed⟩
  | told => exact ⟨within, past, homed⟩
  | closes => exact ⟨within, past, homed⟩
  | closed => exact ⟨within, past, homed⟩
  | proceeds => exact ⟨within, past, homed⟩
  | stops => exact ⟨within, past, homed⟩

theorem step_exchanged {k : Simulation} {s next : Processes} {event : ProcessEvent} (orderly : Orderly k s)
    (steps : Steps k s event next) : Exchanged k next := by
  obtain ⟨exchange, selected, responding⟩ := orderly.exchanged
  cases steps with
  | starts starting =>
    rw [starting] at exchange
    exact ⟨exchange, selected, responding⟩
  | asks i sleeping more =>
    rw [sleeping] at exchange
    exact ⟨exchange, selected, responding⟩
  | asked i requesting receives => exact ⟨.inl rfl, selected, fun _ => GuestLoadBalance.noConfusion⟩
  | assigned marginalCost vmLoad dblMax home assigning is =>
    have answers := assign_answers selected marginalCost vmLoad dblMax
    rw [← is] at answers
    refine ⟨?_, answers, fun other same => ?_⟩
    · cases at_task : s.createTasks with
      | awaiting i => exact .inr ⟨home, rfl⟩
      | _ =>
        rw [at_task,assigning] at exchange
        simp [Exchange] at exchange
    · cases same
      exact answers
  | answered i home at_response awaiting =>
    exact ⟨.inl rfl, selected, fun _ => GuestLoadBalance.noConfusion⟩
  | created i clusterId response home creating chosen inside =>
    rw [creating] at exchange
    refine ⟨?_, selected, responding⟩
    dsimp only
    split
    · exact exchange
    · exact exchange
  | quits i sleeping all =>
    rw [sleeping] at exchange
    exact ⟨exchange, selected, responding⟩
  | closed sending receives =>
    refine ⟨?_, selected, fun _ => GuestLoadBalance.noConfusion⟩
    cases at_task : s.createTasks with
    | awaiting i =>
      rw [at_task,receives] at exchange
      simp [Exchange] at exchange
    | _ => exact .inr rfl
  | _ => exact ⟨exchange, selected, responding⟩

/-- A task that does not end with the step. -/
theorem fins_update {k : Simulation} {s : Processes} {t : Nat × Nat} (task : ProcessTask) (inside : t ∈ k.taskIds)
    (unfinished : s.tasks t ≠ .finished) :
    ∑ u ∈ k.taskIds, (Function.update s.tasks t task u).fin = ∑ u ∈ k.taskIds, (s.tasks u).fin + task.fin := by
  have moved := Progress.sum_update inside ProcessTask.fin s.tasks task
  rwa [ProcessTask.fin.eq_def (s.tasks t),if_neg unfinished,Nat.add_zero] at moved

theorem Created.inside {k : Simulation} {s : Processes} (created : Created k s) {t : Nat × Nat}
    (exists_task : s.tasks t ≠ .absent) : t ∈ k.taskIds :=
  ((created.past t).mp exists_task).1

/-- The task that `create_tasks` is at. -/
theorem Created.free {k : Simulation} {s : Processes} (created : Created k s) {i clusterId home : Nat}
    (creating : s.createTasks = .creating i clusterId home) :
    (clusterId, i) ∈ k.taskIds ∧ s.tasks (clusterId, i) = .absent := by
  obtain ⟨within, past, _⟩ := created
  rw [creating] at within past
  refine ⟨by simpa [Simulation.taskIds] using ⟨within.2.1, within.1⟩, ?_⟩
  by_contra exists_task
  have before := ((past (clusterId, i)).mp exists_task).2
  simp [CreateTasks.Past] at before

theorem fins_le (k : Simulation) (tasks : Nat × Nat → ProcessTask) :
    ∑ t ∈ k.taskIds, (tasks t).fin ≤ numberOfClusters * k.numberOfProcesses := by
  have each : ∑ t ∈ k.taskIds, (tasks t).fin ≤ ∑ t ∈ k.taskIds, 1 :=
    Finset.sum_le_sum fun t _ => by
      unfold ProcessTask.fin
      split <;> decide
  simpa [Simulation.taskIds] using each

theorem step_heard {k : Simulation} {s next : Processes} {event : ProcessEvent} (orderly : Orderly k s)
    (steps : Steps k s event next) : Heard k next := by
  have heard := orderly.heard
  have goes_on {t : Nat × Nat} {task : ProcessTask} (inside : t ∈ k.taskIds) (unfinished : s.tasks t ≠ .finished)
      (still : task ≠ .finished) :
      ∑ u ∈ k.taskIds, (Function.update s.tasks t task u).fin = s.finalize.fins k := by
    rw [fins_update task inside unfinished,heard,ProcessTask.fin,if_neg still,Nat.add_zero]
  have inside {t : Nat × Nat} (exists_task : s.tasks t ≠ .absent) := orderly.created.inside exists_task
  cases steps with
  | created i clusterId response home creating =>
    obtain ⟨member, free⟩ := orderly.created.free creating
    exact goes_on member (by simp [free]) (by decide)
  | executed t working => exact goes_on (inside (by simp [working])) (by simp [working]) (by decide)
  | sends t executed => exact goes_on (inside (by simp [executed])) (by simp [executed]) (by decide)
  | sent t sending => exact goes_on (inside (by simp [sending])) (by simp [sending]) (by decide)
  | reports t sent => exact goes_on (inside (by simp [sent])) (by simp [sent]) (by decide)
  | reported t i sendingFin collecting more =>
    have unfinished : s.tasks t ≠ .finished := by simp [sendingFin]
    have counted := fins_update .finished (inside (t := t) (by simp [sendingFin])) unfinished
    rw [heard,collecting] at counted
    exact counted
  | finishes clusterId i finishing =>
    rw [Heard,finishing] at heard
    exact heard
  | told clusterId i sending =>
    rw [Heard,sending] at heard
    exact heard
  | closes i finishing =>
    rw [Heard,finishing] at heard
    exact heard
  | closed sending =>
    rw [Heard,sending] at heard
    exact heard
  | proceeds finalize proceeds =>
    have all := fins_le k s.tasks
    rw [Heard] at heard ⊢
    rw [heard] at all
    refine heard.trans ?_
    rcases GetFinalize.proceed_cases proceeds with ⟨i, collecting, counted, rfl⟩ | ⟨sleeping, rfl⟩ |
      ⟨clusterId, i, finishing, _, rfl⟩ | ⟨i, finishing, _, rfl⟩ | ⟨setting, rfl⟩
    · rw [collecting] at all ⊢
      exact Nat.le_antisymm all counted
    · rw [sleeping]
      rfl
    · rw [finishing]
      rfl
    · rw [finishing]
      rfl
    · rw [setting]
      rfl
  | _ => exact heard

theorem step_told {k : Simulation} {s next : Processes} {event : ProcessEvent} (told_before : Told k s)
    (steps : Steps k s event next) : Told k next := by
  obtain ⟨within, told, listened⟩ := told_before
  have goes_on {finalize : GetFinalize} (fine : finalize.Within k)
      (same : ∀ v, finalize.Told k v ↔ s.finalize.Told k v) : Told k { s with finalize } :=
    ⟨fine, fun v => (told v).trans (same v).symm, listened⟩
  cases steps with
  | reported t i sendingFin collecting =>
    rw [collecting] at told
    exact ⟨trivial, told, listened⟩
  | finishes clusterId i finishing cluster more =>
    exact goes_on ⟨cluster, more⟩ fun v => by rw [finishing]; rfl
  | told clusterId i sending inside receives =>
    rw [sending] at within told
    obtain ⟨cluster, more⟩ := within
    have is_new (v : Nat × Nat) : Function.update s.listeners (clusterId, i) .ended v = .ended ↔
        v = (clusterId, i) ∨ s.listeners v = .ended := by
      by_cases here : v = (clusterId, i)
      · subst here
        simp
      · rw [Function.update_of_ne here,or_iff_right here]
    refine ⟨⟨Nat.le_of_lt cluster, more, fun last => absurd last (Nat.ne_of_lt cluster)⟩, fun v => ?_, fun v => ?_⟩
    · rw [is_new,told]
      obtain ⟨c, v⟩ := v
      simp only [GetFinalize.Told,Prod.mk.injEq]
      omega
    · rw [is_new]
      rintro (rfl | ended)
      · exact inside
      · exact listened v ended
  | closes i finishing all =>
    rw [finishing] at within
    refine goes_on trivial fun v => ?_
    rw [finishing]
    simp only [GetFinalize.Told,GetFinalize.Within] at within ⊢
    omega
  | closed sending =>
    refine ⟨⟨by decide, Nat.zero_le _, fun _ => rfl⟩, fun v => ?_, listened⟩
    rw [told,sending]
    simp only [GetFinalize.Told]
    omega
  | proceeds finalize proceeds =>
    rcases GetFinalize.proceed_cases proceeds with ⟨i, collecting, _, rfl⟩ | ⟨sleeping, rfl⟩ |
      ⟨clusterId, i, finishing, last, rfl⟩ | ⟨i, finishing, all, rfl⟩ | ⟨setting, rfl⟩
    · exact goes_on trivial fun v => by rw [collecting]; rfl
    · refine goes_on ⟨Nat.zero_le _, Nat.zero_le _, fun _ => rfl⟩ fun v => ?_
      rw [sleeping]
      simp [GetFinalize.Told]
    · rw [finishing] at within
      refine goes_on trivial fun v => ?_
      rw [finishing]
      simp only [GetFinalize.Told,GetFinalize.Within] at within ⊢
      omega
    · rw [finishing] at within
      refine goes_on ⟨Nat.le_refl _, Nat.zero_le _, fun _ => rfl⟩ fun v => ?_
      rw [finishing]
      simp only [GetFinalize.Told,GetFinalize.Within,numberOfClusters] at within ⊢
      omega
    · exact goes_on trivial fun v => by rw [setting]; rfl
  | _ => exact ⟨within, told, listened⟩

theorem step_closed {k : Simulation} {s next : Processes} {event : ProcessEvent}
    (closed_iff : s.guestLoadBalance = .ended ↔ s.finalize.Closed) (steps : Steps k s event next) :
    next.guestLoadBalance = .ended ↔ next.finalize.Closed := by
  cases steps with
  | asked i requesting receives =>
    rw [receives] at closed_iff
    exact ⟨fun is => GuestLoadBalance.noConfusion is,
      fun closed => GuestLoadBalance.noConfusion (closed_iff.mpr closed)⟩
  | assigned marginalCost vmLoad dblMax home assigning =>
    rw [assigning] at closed_iff
    exact ⟨fun is => GuestLoadBalance.noConfusion is,
      fun closed => GuestLoadBalance.noConfusion (closed_iff.mpr closed)⟩
  | answered i home responding =>
    rw [responding] at closed_iff
    exact ⟨fun is => GuestLoadBalance.noConfusion is,
      fun closed => GuestLoadBalance.noConfusion (closed_iff.mpr closed)⟩
  | reported t i sendingFin collecting =>
    rw [collecting] at closed_iff
    exact closed_iff
  | finishes clusterId i finishing =>
    rw [finishing] at closed_iff
    exact closed_iff
  | told clusterId i sending =>
    rw [sending] at closed_iff
    exact closed_iff
  | closes i finishing =>
    rw [finishing] at closed_iff
    exact closed_iff.trans (iff_of_false (fun differs => differs rfl) id)
  | closed sending receives => exact iff_of_true rfl Nat.one_ne_zero
  | proceeds finalize proceeds =>
    refine closed_iff.trans ?_
    rcases GetFinalize.proceed_cases proceeds with ⟨i, is, _, rfl⟩ | ⟨is, rfl⟩ | ⟨clusterId, i, is, last, rfl⟩ |
      ⟨i, is, _, rfl⟩ | ⟨is, rfl⟩
    all_goals rw [is]
    all_goals simp [GetFinalize.Closed]
    simp only [numberOfClusters] at last
    omega
  | _ => exact closed_iff

theorem step_orderly {k : Simulation} {s next : Processes} {event : ProcessEvent} (orderly : Orderly k s)
    (taken : processStep k s event = some next) : Orderly k next := by
  have steps := processStep_steps taken
  exact ⟨step_created orderly steps, step_exchanged orderly steps, step_heard orderly steps,
    step_told orderly.told steps, step_closed orderly.closed steps⟩

theorem run_orderly {k : Simulation} {events : List ProcessEvent} {s : Processes}
    (reached : Runs.run (processStep k) k.start events = some s) : Orderly k s :=
  Runs.run_invariant (Orderly k) (fun _ _ _ orderly taken => step_orderly orderly taken) (start_orderly k) reached

end Hpvc.Project
