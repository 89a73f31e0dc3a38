import Hpvc.ExecuterHost
import Hpvc.Library.Alternation

/-! What `comm_actor` does with its listener, which is a reply socket. The source of a
teleport sends it three messages: a "1", the name of the VM, and a frame with the metadata. -/
namespace Hpvc.Executer

open Alternation

inductive ListenerOp where
  | recvStr (text : String)
  | sendSignal (status : Nat)
  | sendStr (text : String)
  | recvFrame (md : TeleportMetadata)
  deriving DecidableEq

def ListenerOp.direction : ListenerOp → Direction
  | .recvStr _ => .receive
  | .sendSignal _ => .send
  | .sendStr _ => .send
  | .recvFrame _ => .receive

/-- The listener branch. The "2" goes out when the VM waits for the source, the frame comes in when
it has arrived; nothing is sent after that, nor when the first message is not a "1". -/
def listenerBranch (smsg vmName : String) (md : TeleportMetadata) : List ListenerOp :=
  .recvStr smsg ::
    if smsg.toList.head? = some '1' then
      [.sendSignal 0, .recvStr vmName, .sendStr "2", .recvFrame md]
    else []

/-- A peer that follows the source side of the program starts with a "1". -/
def HostEvent.listenerOps : HostEvent → List ListenerOp
  | .arrive vmName md => listenerBranch "1" vmName md
  | _ => []

def HostEvent.arrives : HostEvent → Bool
  | .arrive _ _ => true
  | _ => false

/-- What the actor does with the listener over a run. -/
def listenerRun (events : List HostEvent) : List Direction :=
  (events.flatMap HostEvent.listenerOps).map ListenerOp.direction

def LegalOnListener (events : List HostEvent) : Prop := (after (listenerRun events)).isSome

/-- Every operation is legal, and after a teleport is complete the next "1" can be received. -/
def FollowsDiscipline (events : List HostEvent) : Prop :=
  LegalOnListener events ∧ ∀ past vmName md rest, events = past ++ .arrive vmName md :: rest →
    (after (listenerRun (past ++ [.arrive vmName md]) ++ [.receive])).isSome

/-- The five operations of an incoming teleport. -/
def handshake : List Direction := [.receive, .send, .receive, .send, .receive]

/-- A run goes through the handshake as often as a VM arrives; no other event uses the listener. -/
theorem listenerRun_eq (events : List HostEvent) :
    listenerRun events = (List.replicate (events.countP HostEvent.arrives) handshake).flatten := by
  induction events with
  | nil => rfl
  | cons event rest ih =>
    have split : listenerRun (event :: rest) =
        event.listenerOps.map ListenerOp.direction ++ listenerRun rest := by
      simp [listenerRun]
    rw [split,ih]
    cases event with
    | arrive vmName md =>
      rw [List.countP_cons_of_pos (by rfl),List.replicate_succ,List.flatten_cons]
      rfl
    | _ =>
      rw [List.countP_cons_of_neg (by simp [HostEvent.arrives])]
      rfl

/-- What is owed after a run: a reply to the frame of the first VM that arrived. -/
theorem after_listenerRun (events : List HostEvent) :
    after (listenerRun events) =
      if events.countP HostEvent.arrives = 0 then some false
      else if events.countP HostEvent.arrives = 1 then some true else none := by
  have opens : handshake = .receive :: [.send, .receive, .send, .receive] := rfl
  have once : after handshake = some true := rfl
  rw [listenerRun_eq,after_repeated opens once]
  simp

/-- In every sequence of events, each operation on the listener is legal exactly if at most
one VM arrives, and the actor can go on receiving exactly if none does. -/
theorem listener_discipline (events : List HostEvent) :
    (LegalOnListener events ↔ events.countP HostEvent.arrives ≤ 1) ∧
    (FollowsDiscipline events ↔ ∀ event ∈ events, event.arrives = false) := by
  have legal : LegalOnListener events ↔ events.countP HostEvent.arrives ≤ 1 := by
    rw [LegalOnListener,after_listenerRun]
    split
    next none => simp [none]
    next => split <;> simp <;> omega
  refine ⟨legal, ?_⟩
  constructor
  · rintro ⟨_, able⟩ event member
    cases is : event with
    | arrive vmName md =>
      subst is
      obtain ⟨past, rest, rfl⟩ := List.append_of_mem member
      have free := after_receive.mp (able past vmName md rest rfl)
      have some_arrival : (past ++ [HostEvent.arrive vmName md]).countP HostEvent.arrives ≠ 0 := by
        simp [HostEvent.arrives]
      rw [after_listenerRun,if_neg some_arrival] at free
      split at free <;> contradiction
    | _ => rfl
  · intro quiet
    have none : events.countP HostEvent.arrives = 0 := by
      apply List.countP_eq_zero.mpr
      intro event member
      simp [quiet event member]
    refine ⟨legal.mpr (by omega), ?_⟩
    rintro past vmName md rest rfl
    have arrival := quiet (.arrive vmName md) (by simp)
    contradiction

/-- One VM arrives, and the actor can receive nothing more. -/
theorem listener_left_owing :
    after (listenerRun [.arrive "vm1" ⟨"10.0.0.2", ["10.0.0.2"]⟩]) = some true ∧
    ¬ FollowsDiscipline [.arrive "vm1" ⟨"10.0.0.2", ["10.0.0.2"]⟩] := by
  refine ⟨rfl, ?_⟩
  rintro ⟨_, able⟩
  have receives := able [] "vm1" ⟨"10.0.0.2", ["10.0.0.2"]⟩ [] rfl
  contradiction

end Hpvc.Executer
