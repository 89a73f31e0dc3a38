import Hpvc.Library.Runs

/-! `comm_actor` of the executer, on the side of the source of a teleport: requests come
on the pipe, the targets it contacts say when they are ready, and it teleports. The
name, the address and the socket of a request are variables of the actor. -/
namespace Hpvc.Executer

inductive VmState where
  | up | teleported
  deriving DecidableEq

/-- `n_history` is the length of `history`. A name that has been freed is `none`: what is in its memory
compares equal to no name. -/
structure VMMetadata where
  name : Option String
  home : String
  history : List String
  session : Nat
  state : VmState
  guest : Bool
  deriving DecidableEq

structure TeleportMetadata where
  home : String
  history : List String
  deriving DecidableEq

/-- An `IConsole_Teleport` in answer to the target that was contacted as number `contact`. -/
structure Teleport where
  contact : Nat
  vmName : String
  targetIp : String
  session : Nat
  deriving DecidableEq

/-- What the actor waits for: any of its sockets, or, inside `zmsg_recv`, the pipe only. -/
inductive Mode where
  | polling | receiving | exited
  deriving DecidableEq

/-- A contact is a socket opened by `zsock_new_req`: the address it is connected to and
the VM name sent over it. The poller keeps watching all of them. -/
structure State where
  metadatas : List VMMetadata
  vmName : String
  targetIp : String
  sender : Option Nat
  contacts : List (String × String)
  answered : List Nat
  mode : Mode
  teleports : List Teleport
  sent : List (Nat × TeleportMetadata)
  deriving DecidableEq

/-- Before the first request the two strings are whatever is in memory. -/
def start (metadatas : List VMMetadata) (vmName targetIp : String) : State :=
  ⟨metadatas, vmName, targetIp, none, [], [], .polling, [], []⟩

/-- `recorded` is an `add_metadata` after a start or an incoming teleport of a VM.
A reply comes with what the hypervisor would do: the session it hands out, and
whether the teleport completes. -/
inductive Event where
  | request (vmName targetIp : String)
  | reply (contact : Nat) (text : String) (session : Nat) (completed : Bool)
  | recorded (md : VMMetadata)

/-- The loops over `metadatas` keep the last record with the name. -/
def findMetadata (metadatas : List VMMetadata) (vmName : String) : Option (Nat × VMMetadata) :=
  metadatas.zipIdx.foldl (fun found entry =>
    if entry.1.name = some vmName then some (entry.2, entry.1) else found) none

/-- The address of a request; "home" stands for the recorded home of the VM. -/
def resolve (metadatas : List VMMetadata) (vmName targetIp : String) : Option String :=
  if targetIp = "home" then (findMetadata metadatas vmName).map fun found => found.2.home
  else some targetIp

/-- A request. The two strings are assigned before the address is known to be any good,
and `addr` has room for 37 bytes of it. -/
def handleRequest (s : State) (vmName targetIp : String) : Option State :=
  match resolve s.metadatas vmName targetIp with
  | none => some { s with vmName := vmName, targetIp := targetIp, mode := .polling }
  | some ip =>
    if 37 < ip.utf8ByteSize then none
    else some
      { s with
        vmName := vmName
        targetIp := ip
        mode := .polling
        sender := some s.contacts.length
        contacts := s.contacts ++ [(ip, vmName)] }

/-- `*smsg == '2'` -/
def saysReady (text : String) : Bool := text.toList.head? == some '2'

/-- The teleport itself. A VM without record gets one; when the teleport does not
complete, the executer exits. -/
def teleport (hostIp : String) (s : State) (contact session : Nat) (completed : Bool) : State :=
  match findMetadata s.metadatas s.vmName with
  | some (i, md) =>
    let started : State := { s with
      teleports := s.teleports ++ [⟨contact, s.vmName, s.targetIp, md.session⟩] }
    if completed then
      { started with
        metadatas := s.metadatas.modify i fun md => { md with state := .teleported }
        sent := s.sent ++ [(contact, ⟨md.home, md.history⟩)] }
    else { started with mode := .exited }
  | none =>
    let started : State := { s with
      teleports := s.teleports ++ [⟨contact, s.vmName, s.targetIp, session⟩]
      metadatas := s.metadatas ++ [⟨some s.vmName, hostIp, [hostIp], session, .up, false⟩] }
    if completed then { started with sent := s.sent ++ [(contact, ⟨hostIp, [hostIp]⟩)] }
    else { started with mode := .exited }

/-- One turn of the actor's loop. A reply on a socket that is no longer the sender leads
to the last branch, which reads the pipe. -/
def step (hostIp : String) (s : State) : Event → Option State
  | .recorded md =>
    if s.mode = .exited then none else some { s with metadatas := s.metadatas ++ [md] }
  | .request vmName targetIp => if s.mode = .exited then none else handleRequest s vmName targetIp
  | .reply contact text session completed =>
    if s.mode ≠ .polling ∨ s.contacts.length ≤ contact ∨ contact ∈ s.answered then none
    else if s.sender = some contact then
      let s := { s with answered := contact :: s.answered }
      some (if saysReady text then teleport hostIp s contact session completed else s)
    else some { s with mode := .receiving }

/-- A ready reply that the actor answers with a teleport. -/
def Handled (s : State) (contact : Nat) (text : String) : Prop :=
  s.mode = .polling ∧ s.sender = some contact ∧ contact ∉ s.answered ∧ saysReady text = true

/-- The request for which contact number `contact` was made, in a run's past. -/
def ContactedFor (hostIp : String) (s : State) (past : List Event) (contact : Nat)
    (vmName targetIp : String) : Prop :=
  ∃ before target after mid, past = before ++ .request vmName target :: after ∧
    Runs.run (step hostIp) s before = some mid ∧ mid.contacts.length = contact ∧
    resolve mid.metadatas vmName target = some targetIp

def Event.isRequest : Event → Bool
  | .request _ _ => true
  | _ => false

/-- The most recent request of a run's past had an address. -/
def LastResolved (hostIp : String) (s : State) (past : List Event) : Prop :=
  ∀ before vmName target after mid, past = before ++ .request vmName target :: after →
    (∀ event ∈ after, event.isRequest = false) → Runs.run (step hostIp) s before = some mid →
    (resolve mid.metadatas vmName target).isSome

/-- Whenever a run starts a teleport, it is for the request of the target that replied. -/
def NotMixedUp (hostIp : String) (s : State) (events : List Event) : Prop :=
  ∀ past event rest mid next teleport, events = past ++ event :: rest →
    Runs.run (step hostIp) s past = some mid → step hostIp mid event = some next →
    next.teleports = mid.teleports ++ [teleport] →
    ContactedFor hostIp s past teleport.contact teleport.vmName teleport.targetIp

/-- Whenever a ready reply is answered, the most recent request had an address. -/
def RepliesInTime (hostIp : String) (s : State) (events : List Event) : Prop :=
  ∀ past contact text session completed rest mid,
    events = past ++ .reply contact text session completed :: rest →
    Runs.run (step hostIp) s past = some mid → Handled mid contact text → LastResolved hostIp s past

end Hpvc.Executer
