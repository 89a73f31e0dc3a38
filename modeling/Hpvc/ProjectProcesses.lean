import Hpvc.GuestScan
import Hpvc.HostLaunch
import Hpvc.ProjectAccounting

/-! The processes of simgrid-project and the messages between them, in any order of their steps, from the
launch to the end of the last one. A send and its receive are one event; until then the sender is
blocked. -/
namespace Hpvc.Project

/-- `NUMBER_OF_CLUSTERS` -/
def numberOfClusters : Nat := 2

/-- `mailbox_%d_%d`, `fin_mailbox`, `load_balancer_mailbox_0` and `create_0`. -/
inductive Mailbox where
  | vm (clusterId mailboxNo : Nat)
  | fin
  | loadBalancer
  | create

/-- No data is `NULL`. The request that ends the load balancer is for no task. -/
inductive Data where
  | null
  | text (s : String)
  | request (request : Nat) (taskNumber : Option Nat)
  | response (targetHost : Nat)

structure Message where
  mailbox : Mailbox
  data : Data

/-- A `create_tasks` in its loop: asleep, in the send of its request, in the receive of the response,
or at a cluster. -/
inductive CreateTasks where
  | starting
  | sleeping (i : Nat)
  | requesting (i : Nat)
  | awaiting (i : Nat)
  | creating (i clusterId homeVm : Nat)
  | ended

/-- A `guest_load_balance`, which has a request to decide on, or is in the send of its response. -/
inductive GuestLoadBalance where
  | receiving
  | assigning
  | responding (targetHost : Nat)
  | ended

/-- A `process_task`, once it exists. It is blocked in the sends. -/
inductive ProcessTask where
  | absent
  | working
  | executed
  | sending
  | sent
  | sendingFin
  | finished
  deriving DecidableEq

/-- A `process_mailbox`. -/
inductive Listener where
  | receiving | ended
  deriving DecidableEq

/-- `get_finalize` with its counters. After the VMs of cluster 0 it closes the load balancer; in the end it
sleeps again and sets `finish`. -/
inductive GetFinalize where
  | collecting (i : Nat)
  | sleeping
  | finishing (clusterId i : Nat)
  | sendingFinish (clusterId i : Nat)
  | sendingRequest
  | setting
  | ended

/-- A `host_load_balance`, with its policy. -/
inductive HostLoadBalance where
  | looping | ended

inductive Party where
  | createTasks
  | guestLoadBalance
  | task (t : Nat × Nat)
  | finalize

/-- What the simulator is started with: the arguments of the processes, the lengths of the two
`vm_list`, the policy, and the random numbers for the targets. -/
structure Simulation where
  numberOfProcesses : Nat
  numberOfVms : Nat
  vmList : Nat → Nat
  policy : Int
  targets : Nat → Random

/-- `target_mailbox * number_of_vms` -/
def Simulation.targetMailbox (k : Simulation) (i : Nat) : Nat := ⌊(k.targets i).value * k.numberOfVms⌋₊

/-- A task is named by its cluster and its number, a listener by its cluster and its VM. -/
structure Processes where
  createTasks : CreateTasks
  guestLoadBalance : GuestLoadBalance
  selectedVmNumber : Nat
  tasks : Nat × Nat → ProcessTask
  listeners : Nat × Nat → Listener
  finalize : GetFinalize
  hostLoadBalance : HostLoadBalance

/-- Of the policies, only `INHAB_MIG` loops. -/
def Simulation.start (k : Simulation) : Processes where
  createTasks := .starting
  guestLoadBalance := .receiving
  selectedVmNumber := 0
  tasks _ := .absent
  listeners _ := .receiving
  finalize := .collecting 0
  hostLoadBalance := if k.policy = 0 then .looping else .ended

/-- The home of the next task: the response, or the next VM in turn. -/
def Simulation.homeVm (k : Simulation) (i clusterId homeVm : Nat) : Option Nat :=
  if clusterId = 0 then some homeVm
  else if k.numberOfVms = 0 then none
  else some (i % k.numberOfVms)

/-- The calls of `MSG_task_send` that the processes come to, and where they are then blocked. -/
def Processes.call (k : Simulation) (s : Processes) : Party → Option (Message × Processes)
  | .createTasks =>
    match s.createTasks with
    | .sleeping i =>
      if i < k.numberOfProcesses then
        some (⟨.loadBalancer, .request 0 (some i)⟩, { s with createTasks := .requesting i })
      else none
    | _ => none
  | .guestLoadBalance => none
  | .task t =>
    match s.tasks t with
    | .executed =>
      some (⟨.vm t.1 (k.targetMailbox t.2), .null⟩, { s with tasks := Function.update s.tasks t .sending })
    | .sent => some (⟨.fin, .null⟩, { s with tasks := Function.update s.tasks t .sendingFin })
    | _ => none
  | .finalize =>
    match s.finalize with
    | .finishing clusterId i =>
      if numberOfClusters ≤ clusterId then none
      else if i < k.numberOfVms then
        some (⟨.vm clusterId i, .text "finish"⟩, { s with finalize := .sendingFinish clusterId i })
      else if clusterId = 0 then
        some (⟨.loadBalancer, .request 2 none⟩, { s with finalize := .sendingRequest })
      else none
    | _ => none

/-- What a process is blocked with, and how it goes on when the send returns `MSG_OK`. -/
def Processes.blocked (k : Simulation) (s : Processes) : Party → Option (Message × Processes)
  | .createTasks =>
    match s.createTasks with
    | .requesting i => some (⟨.loadBalancer, .request 0 (some i)⟩, { s with createTasks := .awaiting i })
    | _ => none
  | .guestLoadBalance =>
    match s.guestLoadBalance with
    | .responding targetHost => some (⟨.create, .response targetHost⟩, { s with guestLoadBalance := .receiving })
    | _ => none
  | .task t =>
    match s.tasks t with
    | .sending => some (⟨.vm t.1 (k.targetMailbox t.2), .null⟩, { s with tasks := Function.update s.tasks t .sent })
    | .sendingFin => some (⟨.fin, .null⟩, { s with tasks := Function.update s.tasks t .finished })
    | _ => none
  | .finalize =>
    match s.finalize with
    | .sendingFinish clusterId i =>
      some (⟨.vm clusterId i, .text "finish"⟩, { s with finalize := .finishing clusterId (i + 1) })
    | .sendingRequest => some (⟨.loadBalancer, .request 2 none⟩, { s with finalize := .finishing 1 0 })
    | _ => none

/-- The loop of `process_mailbox`: data other than "finish", or none, and it receives again. -/
def processMailbox : Data → Listener
  | .text s => if s = "finish" then .ended else .receiving
  | _ => .receiving

/-- The branches of `guest_load_balance`; there is nothing to do in that of a reassignment. -/
def guestRequest : Data → GuestLoadBalance
  | .request request _ => if request = 0 then .assigning else if request = 1 then .receiving else .ended
  | _ => .ended

/-- The listeners are there as soon as `create_tasks` has created them, one for each VM of the lists. -/
def Processes.receive (k : Simulation) (s : Processes) (message : Message) : Option Processes :=
  match message.mailbox with
  | .vm clusterId v =>
    match s.createTasks with
    | .starting => none
    | _ =>
      if clusterId < numberOfClusters ∧ v < k.vmList clusterId ∧ s.listeners (clusterId, v) = .receiving then
        some { s with listeners := Function.update s.listeners (clusterId, v) (processMailbox message.data) }
      else none
  | .fin =>
    match s.finalize with
    | .collecting i =>
      if i < numberOfClusters * k.numberOfProcesses then some { s with finalize := .collecting (i + 1) } else none
    | _ => none
  | .loadBalancer =>
    match s.guestLoadBalance with
    | .receiving => some { s with guestLoadBalance := guestRequest message.data }
    | _ => none
  | .create =>
    match s.createTasks, message.data with
    | .awaiting i, .response targetHost => some { s with createTasks := .creating i 0 targetHost }
    | _, _ => none

/-- `assign` carries what the scan finds, and `scan` is a round of the host load balancer that comes through, for as
long as `finish` is not set. A round that reads an index outside `vm_list` ends the simulator and is no event. -/
inductive ProcessEvent where
  | start
  | assign (marginalCost : Nat → ℚ) (vmLoad : Nat → Nat) (dblMax : ℚ)
  | create
  | quit
  | execute (t : Nat × Nat)
  | send (party : Party)
  | retry (party : Party)
  | transfer (party : Party)
  | proceed
  | scan
  | stop

/-- The steps `get_finalize` makes without a message. -/
def GetFinalize.proceed (k : Simulation) : GetFinalize → Option GetFinalize
  | .collecting i => if i < numberOfClusters * k.numberOfProcesses then none else some .sleeping
  | .sleeping => some (.finishing 0 0)
  | .finishing clusterId i =>
    if numberOfClusters ≤ clusterId then some .setting
    else if i < k.numberOfVms ∨ clusterId = 0 then none
    else some (.finishing (clusterId + 1) 0)
  | .setting => some .ended
  | _ => none

/-- The end of the loop over the clusters, in which a home beyond the list ends the simulator. -/
def createProcess (k : Simulation) (s : Processes) : Option Processes :=
  match s.createTasks with
  | .creating i clusterId homeVm =>
    (k.homeVm i clusterId homeVm).bind fun homeVm =>
      if homeVm < k.vmList clusterId then
        some
          { s with
            tasks := Function.update s.tasks (clusterId, i) .working
            createTasks :=
              if clusterId + 1 < numberOfClusters then .creating i (clusterId + 1) homeVm else .sleeping (i + 1) }
      else none
  | _ => none

def processStep (k : Simulation) (s : Processes) : ProcessEvent → Option Processes
  | .start =>
    match s.createTasks with
    | .starting => some { s with createTasks := .sleeping 0 }
    | _ => none
  | .assign marginalCost vmLoad dblMax =>
    match s.guestLoadBalance with
    | .assigning =>
      let final := GuestScan.assign marginalCost vmLoad (k.vmList 0) dblMax s.selectedVmNumber
      some
        { s with
          guestLoadBalance := .responding final.selectedVmNumber
          selectedVmNumber := final.selectedVmNumber }
    | _ => none
  | .create => createProcess k s
  | .quit =>
    match s.createTasks with
    | .sleeping i => if i < k.numberOfProcesses then none else some { s with createTasks := .ended }
    | _ => none
  | .execute t =>
    match s.tasks t with
    | .working => some { s with tasks := Function.update s.tasks t .executed }
    | _ => none
  | .send party => (s.call k party).map Prod.snd
  | .retry party => (s.blocked k party).map fun _ => s
  | .transfer party => (s.blocked k party).bind fun (message, next) => next.receive k message
  | .proceed => (s.finalize.proceed k).map fun finalize => { s with finalize }
  | .scan =>
    match s.hostLoadBalance, s.finalize with
    | .looping, .ended => none
    | .looping, _ => some s
    | .ended, _ => none
  | .stop =>
    match s.hostLoadBalance, s.finalize with
    | .looping, .ended => some { s with hostLoadBalance := .ended }
    | _, _ => none

end Hpvc.Project
