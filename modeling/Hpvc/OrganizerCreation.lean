import Hpvc.OrganizerRequests

/-! `create_tasks` and the random numbers that it draws. With and without the load balancer it draws as
many, so the tasks do not depend on what the balancer answers. Waiting is left out, and so are the
properties of the VMs. -/
namespace Hpvc.Organizer

/-- What `create_tasks` is compiled and started with; `log` is the C library's. -/
structure Creation where
  machine : Machine
  numberOfProcesses : Nat
  numberOfVms : Nat
  numberOfClusters : Nat
  isEnableGuestLoadBalance : Bool
  processArrivalRate : ℚ
  log : ℚ → ℚ

/-- The values that `rand` returns, one after the other. -/
abbrev RandStream (k : Machine) : Type := Nat → Fin (k.randMax + 1)

/-- The load balancer: `target_host` in the answer to the last of these requests. -/
abbrev Balancer : Type := List (Usage ℚ) → Int

/-- What `create_tasks` draws for a task before it comes to the clusters. -/
structure Draws (k : Machine) where
  arrival : Nat
  task : TaskParams k
  targetMailbox : Nat

/-- The draws from number `d` on. -/
def draw {k : Machine} (rand : RandStream k) (d : Nat) : Draws k where
  arrival := rand d
  task :=
    { r := rand (d + 1)
      m := rand (d + 2)
      c := rand (d + 3)
      randTask := rand (d + 4)
      r_le := Nat.lt_succ_iff.mp (rand (d + 1)).isLt
      m_le := Nat.lt_succ_iff.mp (rand (d + 2)).isLt
      c_le := Nat.lt_succ_iff.mp (rand (d + 3)).isLt
      randTask_le := Nat.lt_succ_iff.mp (rand (d + 4)).isLt }
  targetMailbox := rand (d + 5)

/-- `-log(1 - arrival) / process_arrival_rate`, missing where the quotient is infinite. -/
def Creation.sleepTime (c : Creation) (draws : Nat) : Option ℚ :=
  let arrival : ℚ := draws / c.machine.randMax
  let arrival := if arrival = 1 then arrival - 5 / 1000 else arrival
  quotient (-c.log (1 - arrival)) c.processArrivalRate

/-- What is asked of a process: the sleep before it, and its arguments but for its home. -/
structure Workload where
  sleepTime : Option ℚ
  name : List Char
  argv : TaskArgv
  targetMailbox : List Char
  processSequence : List Char

/-- A process as it is created. -/
structure NewProcess where
  workload : Workload
  homeVm : List Char
  host : Nat

/-- The variables of `create_tasks`, the requests so far and the processes created. -/
structure Creating where
  drawn : Nat
  homeVm : Nat
  requests : List (Usage ℚ)
  created : List NewProcess

def startCreating : Creating := ⟨0, 0, [], []⟩

/-- `process_%d_%d` -/
def processName (cluster i : Nat) : List Char :=
  "process_".toList ++ Decimal.formatU cluster ++ '_' :: Decimal.formatU i

section Create
variable (c : Creation) (rand : RandStream c.machine) (balancer : Balancer)

/-- `rand() % number_of_vms` -/
def drawHome (s : Creating) : Option Creating :=
  if c.numberOfVms = 0 then none
  else some { s with drawn := s.drawn + 1, homeVm := rand s.drawn % c.numberOfVms }

/-- The home VM. The first cluster draws a number for nothing and asks the balancer; with no balancer
the others take the home of the first one. -/
def chooseHome (task : TaskParams c.machine) (s : Creating) (cluster : Nat) : Option Creating :=
  if c.isEnableGuestLoadBalance then
    if cluster = 0 then
      let requests := s.requests ++ [taskRequest (createNeed c.machine task)]
      some { s with drawn := s.drawn + 1, homeVm := asUnsigned (balancer requests), requests := requests }
    else drawHome c rand s
  else if cluster = 0 then drawHome c rand s
  else some s

def workload (draws : Draws c.machine) (i cluster : Nat) : Workload where
  sleepTime := c.sleepTime draws.arrival
  name := processName cluster i
  argv := printArgv cluster draws.task
  targetMailbox := Decimal.formatU (draws.targetMailbox % c.numberOfVms)
  processSequence := Decimal.formatU i

/-- The host of the process is read from `vm_list`. -/
def createProcess (draws : Draws c.machine) (i : Nat) (s : Creating) (cluster : Nat) : Option Creating :=
  if s.homeVm < c.numberOfVms then
    some { s with created := s.created ++
      [⟨workload c draws i cluster, Decimal.formatU (s.homeVm % c.numberOfVms), s.homeVm⟩] }
  else none

def clusterTurn (draws : Draws c.machine) (i : Nat) (s : Creating) (cluster : Nat) : Option Creating :=
  (chooseHome c rand balancer draws.task s cluster).bind fun s => createProcess c draws i s cluster

def createTurn (s : Creating) (i : Nat) : Option Creating :=
  Runs.run (clusterTurn c rand balancer (draw rand s.drawn) i) { s with drawn := s.drawn + 6 }
    (List.range c.numberOfClusters)

/-- `create_tasks` -/
def createTasks : Option Creating :=
  Runs.run (createTurn c rand balancer) startCreating (List.range c.numberOfProcesses)

/-- With one cluster a process takes seven draws. -/
def workloadAt (i : Nat) : Workload := workload c (draw rand (7 * i)) i 0

/-- `i` processes were created with seven draws each. -/
structure CreatedFirst (i : Nat) (s : Creating) : Prop where
  drawn : s.drawn = 7 * i
  workloads : s.created.map NewProcess.workload = (List.range i).map (workloadAt c rand)

variable {c rand balancer}

theorem drawHome_some {s next : Creating} (drew : drawHome c rand s = some next) :
    next.drawn = s.drawn + 1 ∧ next.created = s.created := by
  unfold drawHome at drew
  split at drew
  · contradiction
  · cases drew
    exact ⟨rfl, rfl⟩

/-- In the first cluster the home takes one draw, whoever chooses it. -/
theorem chooseHome_first {task : TaskParams c.machine} {s next : Creating}
    (chosen : chooseHome c rand balancer task s 0 = some next) :
    next.drawn = s.drawn + 1 ∧ next.created = s.created := by
  unfold chooseHome at chosen
  split at chosen
  · cases chosen
    exact ⟨rfl, rfl⟩
  · exact drawHome_some chosen

theorem createTurn_one (one : c.numberOfClusters = 1) (s : Creating) (i : Nat) :
    createTurn c rand balancer s i =
      clusterTurn c rand balancer (draw rand s.drawn) i { s with drawn := s.drawn + 6 } 0 := by
  rw [createTurn,one,List.range_one,Runs.run_cons]
  exact Option.bind_fun_some _

/-- One process. -/
theorem CreatedFirst.turn (one : c.numberOfClusters = 1) {s next : Creating} {i : Nat}
    (first : CreatedFirst c rand i s) (taken : createTurn c rand balancer s i = some next) :
    CreatedFirst c rand (i + 1) next := by
  rw [createTurn_one one] at taken
  obtain ⟨mid, chosen, made⟩ := Option.bind_eq_some_iff.mp taken
  obtain ⟨drawn, created⟩ := chooseHome_first chosen
  unfold createProcess at made
  split at made
  · cases made
    refine ⟨?_, ?_⟩
    · show mid.drawn = _
      rw [drawn]
      show s.drawn + 6 + 1 = _
      rw [first.drawn]
      omega
    · simp only [created,List.map_append,List.map_singleton,first.workloads,first.drawn,List.range_succ,
        workloadAt]
  · contradiction

/-- The processes of a run, whatever the balancer answers. -/
theorem createTasks_workloads (one : c.numberOfClusters = 1) {final : Creating}
    (ran : createTasks c rand balancer = some final) : CreatedFirst c rand c.numberOfProcesses final := by
  have all (n : Nat) {final : Creating}
      (ran : Runs.run (createTurn c rand balancer) startCreating (List.range n) = some final) :
      CreatedFirst c rand n final := by
    induction n generalizing final with
    | zero =>
      cases ran
      exact ⟨rfl, rfl⟩
    | succ n ih =>
      rw [List.range_succ] at ran
      obtain ⟨mid, before, taken⟩ := Runs.run_snoc_some ran
      exact (ih before).turn one taken
  exact all c.numberOfProcesses ran

/-- Every process is created, if the balancer answers with VMs. -/
theorem createTasks_total (one : c.numberOfClusters = 1) (vms : 0 < c.numberOfVms)
    (answers : c.isEnableGuestLoadBalance = true → ∀ requests, asUnsigned (balancer requests) < c.numberOfVms) :
    ∃ final, createTasks c rand balancer = some final := by
  have progress (s : Creating) (i : Nat) : ∃ next, createTurn c rand balancer s i = some next ∧ True := by
    rw [createTurn_one one,clusterTurn]
    cases enabled : c.isEnableGuestLoadBalance with
    | true => simp [chooseHome,enabled,createProcess,answers enabled]
    | false => simp [chooseHome,enabled,drawHome,createProcess,Nat.pos_iff_ne_zero.mp vms,Nat.mod_lt _ vms]
  obtain ⟨final, ran, _⟩ := Runs.run_total (createTurn c rand balancer) (fun _ => True) (fun _ => True)
    (fun s i _ _ => progress s i) trivial (List.range c.numberOfProcesses) (fun _ _ => trivial)
  exact ⟨final, ran⟩

end Create

/-- The same program with and without the load balancer. -/
def Creation.balanced (c : Creation) (enabled : Bool) : Creation := { c with isEnableGuestLoadBalance := enabled }

/-- With one cluster, both programs create the same processes, but for their homes; and all of them,
without the balancer as soon as there is a VM, with it if it answers with VMs. -/
theorem workload_unbalanced (c : Creation) (one : c.numberOfClusters = 1) (rand : RandStream c.machine)
    (balancer : Balancer) :
    (∀ balanced plain, createTasks (c.balanced true) rand balancer = some balanced →
      createTasks (c.balanced false) rand balancer = some plain →
      balanced.created.map NewProcess.workload = plain.created.map NewProcess.workload ∧
        plain.created.length = c.numberOfProcesses) ∧
    (0 < c.numberOfVms → ∃ plain, createTasks (c.balanced false) rand balancer = some plain) ∧
    ((∀ requests, asUnsigned (balancer requests) < c.numberOfVms) →
      ∃ balanced, createTasks (c.balanced true) rand balancer = some balanced) := by
  refine ⟨fun balanced plain ran ran' => ?_, fun vms => ?_, fun answers => ?_⟩
  · obtain ⟨_, first⟩ := createTasks_workloads (c := c.balanced true) one ran
    obtain ⟨_, second⟩ := createTasks_workloads (c := c.balanced false) one ran'
    have count := congrArg List.length second
    rw [List.length_map,List.length_map,List.length_range] at count
    exact ⟨first.trans second.symm, count⟩
  · exact createTasks_total one vms fun enabled => by contradiction
  · exact createTasks_total one (Nat.zero_lt_of_lt (answers [])) fun _ => answers

/-- Two tasks, five VMs; no task waits for the one before it. -/
def twoTasks : Creation where
  machine := ⟨2147483647, by decide, by decide, 1000000000, 1, 0, 2⟩
  numberOfProcesses := 2
  numberOfVms := 5
  numberOfClusters := 1
  isEnableGuestLoadBalance := true
  processArrivalRate := 2
  log _ := 0

theorem workload_unbalanced_two : ∃ balanced plain : Creating,
    balanced.created.map NewProcess.workload = plain.created.map NewProcess.workload ∧
      balanced.created.map NewProcess.host = [1, 2] ∧ plain.created.map NewProcess.host = [1, 3] := by
  have same := workload_unbalanced twoTasks rfl (fun d => Fin.ofNat _ (d % 7 * d)) fun requests => requests.length
  exact ⟨_, _, (same.1 _ _ rfl rfl).1, by decide, by decide⟩

end Hpvc.Organizer
