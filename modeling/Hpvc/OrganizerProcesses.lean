import Hpvc.Library.Runs
import Hpvc.OrganizerWork
import Mathlib.Logic.Function.Basic

/-! The processes of the organizer simulator and the messages between them, in any order of
their steps. A send and its receive are one event; until then the sender is blocked. -/
namespace Hpvc.Organizer

/-- `mailbox_0_%d` and `fin_mailbox`. -/
inductive Mailbox where
  | vm (mailboxNo : Int)
  | fin
  deriving DecidableEq

/-- No data is `NULL`. -/
structure Message where
  mailbox : Mailbox
  data : Option String
  deriving DecidableEq

/-- A `process_task` with the tasks it still has to run. It is blocked in the sends. -/
inductive ProcessTask where
  | working (tasks : List Task)
  | sending (targetMailbox : Int) (tasks : List Task)
  | sendingFin
  | finished

/-- A `process_mailbox`. -/
inductive Listener where
  | receiving | ended
  deriving DecidableEq

/-- `get_finalize` with its counter `i`. After the last VM it closes the load balancer, sleeps
again and kills the organizer. -/
inductive GetFinalize where
  | collecting (i : Nat)
  | sleeping
  | finishing (i : Nat)
  | sendingFinish (i : Nat)
  | closing
  | ended

/-- `organization_manager`, which tells a VM's own mailbox what it costs to migrate the VM. -/
inductive Manager where
  | waiting
  | migrating (vm : Nat)
  | sending (vm : Nat)
  | off

inductive Party where
  | task (t : Nat)
  | finalize
  | organizer
  deriving DecidableEq

/-- What the simulator is started with. `program t` is what process `t` will run: the tasks of its
work loop, where that ends. -/
structure Simulation where
  numberOfProcess : Nat
  numberOfVMs : Nat
  program : Nat → List Task
  isOrganizerRunning : Bool

/-- Of the tasks, those below `created` exist. -/
structure Processes where
  created : Nat
  tasks : Nat → ProcessTask
  listeners : Int → Listener
  finalize : GetFinalize
  organizer : Manager

def Simulation.start (k : Simulation) : Processes where
  created := 0
  tasks t := .working (k.program t)
  listeners _ := .receiving
  finalize := .collecting 0
  organizer := if k.isOrganizerRunning then .waiting else .off

/-- The call of `MSG_task_send` a task comes to, and where it is then blocked. -/
def ProcessTask.call : ProcessTask → Option (Message × ProcessTask)
  | .working (.send targetMailbox :: tasks) => some (⟨.vm targetMailbox, none⟩, .sending targetMailbox tasks)
  | .working [] => some (⟨.fin, none⟩, .sendingFin)
  | _ => none

/-- The message a task is blocked with, and how it goes on when the send returns `MSG_OK`. -/
def ProcessTask.blocked : ProcessTask → Option (Message × ProcessTask)
  | .sending targetMailbox tasks => some (⟨.vm targetMailbox, none⟩, .working tasks)
  | .sendingFin => some (⟨.fin, none⟩, .finished)
  | _ => none

def ProcessTask.isFinished : ProcessTask → Bool
  | .finished => true
  | _ => false

def GetFinalize.call (numberOfVMs : Nat) : GetFinalize → Option (Message × GetFinalize)
  | .finishing i => if i < numberOfVMs then some (⟨.vm i, some "finish"⟩, .sendingFinish i) else none
  | _ => none

def GetFinalize.blocked : GetFinalize → Option (Message × GetFinalize)
  | .sendingFinish i => some (⟨.vm i, some "finish"⟩, .finishing (i + 1))
  | _ => none

/-- The steps `get_finalize` makes without a message to a VM: the ends of its loops and sleeps. -/
def GetFinalize.proceed (k : Simulation) : GetFinalize → Option GetFinalize
  | .collecting i => if i < k.numberOfProcess then none else some .sleeping
  | .sleeping => some (.finishing 0)
  | .finishing i => if i < k.numberOfVMs then none else some .closing
  | .closing => some .ended
  | _ => none

def Manager.call : Manager → Option (Message × Manager)
  | .migrating vm => some (⟨.vm vm, none⟩, .sending vm)
  | _ => none

def Manager.blocked : Manager → Option (Message × Manager)
  | .sending vm => some (⟨.vm vm, none⟩, .waiting)
  | _ => none

def Processes.call (k : Simulation) (s : Processes) : Party → Option (Message × Processes)
  | .task t =>
    if t < s.created then
      (s.tasks t).call.map fun (message, task) => (message, { s with tasks := Function.update s.tasks t task })
    else none
  | .finalize => (s.finalize.call k.numberOfVMs).map fun (message, finalize) => (message, { s with finalize })
  | .organizer => s.organizer.call.map fun (message, organizer) => (message, { s with organizer })

def Processes.blocked (s : Processes) : Party → Option (Message × Processes)
  | .task t =>
    (s.tasks t).blocked.map fun (message, task) => (message, { s with tasks := Function.update s.tasks t task })
  | .finalize => s.finalize.blocked.map fun (message, finalize) => (message, { s with finalize })
  | .organizer => s.organizer.blocked.map fun (message, organizer) => (message, { s with organizer })

/-- The loop of `process_mailbox`: data other than "finish", or none, and it receives again. -/
def processMailbox (data : Option String) : Listener :=
  if data = some "finish" then .ended else .receiving

/-- Only a VM of the cluster has a listener; `get_finalize` counts the messages on `fin_mailbox`. -/
def Processes.receive (k : Simulation) (s : Processes) (message : Message) : Option Processes :=
  match message.mailbox with
  | .vm v =>
    if 0 ≤ v ∧ v < k.numberOfVMs ∧ s.listeners v = .receiving then
      some { s with listeners := Function.update s.listeners v (processMailbox message.data) }
    else none
  | .fin =>
    match s.finalize with
    | .collecting i => if i < k.numberOfProcess then some { s with finalize := .collecting (i + 1) } else none
    | _ => none

/-- A send is called, fails and is tried again, or is received. -/
inductive ProcessEvent where
  | create
  | execute (t : Nat)
  | migrate (vm : Nat)
  | send (party : Party) (message : Message)
  | retry (party : Party) (message : Message)
  | transfer (party : Party) (message : Message)
  | proceed
  deriving DecidableEq

def processStep (k : Simulation) (s : Processes) : ProcessEvent → Option Processes
  | .create => if s.created < k.numberOfProcess then some { s with created := s.created + 1 } else none
  | .execute t =>
    match s.tasks t with
    | .working (.execute :: tasks) =>
      if t < s.created then some { s with tasks := Function.update s.tasks t (.working tasks) } else none
    | _ => none
  | .migrate vm =>
    match s.organizer with
    | .waiting => if vm < k.numberOfVMs then some { s with organizer := .migrating vm } else none
    | _ => none
  | .send party message =>
    (s.call k party).bind fun (called, next) => if called = message then some next else none
  | .retry party message => (s.blocked party).bind fun (sent, _) => if sent = message then some s else none
  | .transfer party message =>
    (s.blocked party).bind fun (sent, next) => if sent = message then next.receive k message else none
  | .proceed =>
    (s.finalize.proceed k).map fun finalize =>
      { s with
        finalize
        organizer := match finalize with
          | .ended => .off
          | _ => s.organizer }

end Hpvc.Organizer
