import Hpvc.ExecuterHost
import Hpvc.Library.RequestReply

/-! The executers of several hosts and the messages between them, in any order of their steps. An
actor is one thread: while it is blocked in a handshake, as source or as target, it takes nothing
from its other sockets. -/
namespace Hpvc.Executer

open RequestReply

/-- Where `comm_actor` is: at its poller (or the pipe), in the `zsock_wait` after a "1", in the
`zstr_recv` for the VM's name, or between the "2" and the frame with the metadata. -/
inductive Phase where
  | waiting
  | signalling (contact : Nat)
  | named
  | serving (vmName : String)
  deriving DecidableEq

/-- A contact of a host. -/
abbrev Client := String × Nat

/-- The messages as they are sent: strings, the signal of `zsock_signal`, and packed metadata. A "1" is
no metadata: its tag announces a number of eight bytes. -/
structure Messages (Bytes : Type) where
  text : String → Bytes
  readText : Bytes → String
  signal : Bytes
  pack : TeleportMetadata → Bytes
  unpack : Bytes → Option TeleportMetadata
  readText_text : ∀ s, readText (text s) = s
  unpack_pack : ∀ md, unpack (pack md) = some md
  unpack_one : unpack (text "1") = none

structure Party where
  host : Host
  phase : Phase

structure Network (Bytes : Type) where
  parties : String → Party
  sockets : Sockets String Client Bytes

/-- A reply comes from the poller. `knock` is the first message of a handshake at the listener, `name`
and `frame` are the other two, where `launched` says that the VM could be found and started, and `moved`
that `realloc` moves its history. When the VM does not arrive, the target exits. -/
inductive NetworkEvent where
  | start (host vmName : String)
  | request (host vmName targetIp : String)
  | signalled (host : String)
  | reply (host : String) (contact : Nat) (completed : Bool)
  | knock (host : String) (client : Client)
  | name (host : String) (client : Client) (launched : Bool)
  | frame (host : String) (client : Client) (moved : Bool)
  | failed (host : String)

def NetworkEvent.host : NetworkEvent → String
  | .start host _ => host
  | .request host _ _ => host
  | .signalled host => host
  | .reply host _ _ => host
  | .knock host _ => host
  | .name host _ _ => host
  | .frame host _ _ => host
  | .failed host => host

/-- The executers that run, and the VMs each of them knows. -/
structure Site (Bytes : Type) where
  messages : Messages Bytes
  hosts : List String
  registered : String → String → Bool

def emptyNetwork (Bytes : Type) : Network Bytes := ⟨fun _ => ⟨emptyHost, .waiting⟩, .fresh⟩

variable {Bytes : Type}

def Network.actor (n : Network Bytes) (host : String) : State := (n.parties host).host.actor

def Network.phase (n : Network Bytes) (host : String) : Phase := (n.parties host).phase

def Network.set (n : Network Bytes) (host : String) (party : Party) (sockets : Sockets String Client Bytes) :
    Network Bytes :=
  ⟨Function.update n.parties host party, sockets⟩

/-- The branch of the pipe. Where the address is found, it ends in `zsock_wait`. -/
def takeRequest (site : Site Bytes) (n : Network Bytes) (host vmName targetIp : String) :
    Option (Network Bytes) :=
  let party := n.parties host
  let contact := party.host.actor.contacts.length
  if party.phase = .waiting then
    (hostStep host party.host (.request vmName targetIp)).bind fun asked =>
      match asked.actor.contacts[contact]? with
      | none => some (n.set host ⟨asked, .waiting⟩ n.sockets)
      | some (ip, _) =>
        (n.sockets.ask (host, contact) ip (site.messages.text "1")).map
          (n.set host ⟨asked, .signalling contact⟩)
  else none

/-- `zsock_wait` returns, whatever came, and the VM's name is sent. -/
def takeSignal (site : Site Bytes) (n : Network Bytes) (host : String) : Option (Network Bytes) :=
  let party := n.parties host
  match party.phase with
  | .signalling contact =>
    (n.sockets.collect (host, contact)).bind fun (_, sockets) =>
      party.host.actor.contacts[contact]?.bind fun (ip, _) =>
        (sockets.ask (host, contact) ip (site.messages.text party.host.actor.vmName)).map
          (n.set host ⟨party.host, .waiting⟩)
  | _ => none

/-- The branch of the sender, with the frame that is sent after a teleport, or the last branch. -/
def takeReply (site : Site Bytes) (n : Network Bytes) (host : String) (contact : Nat) (completed : Bool) :
    Option (Network Bytes) :=
  let party := n.parties host
  if party.phase = .waiting then
    match n.sockets.links (host, contact) with
    | .answered text =>
      (hostStep host party.host (.reply contact (site.messages.readText text) completed)).bind fun next =>
        if party.host.actor.sender = some contact then
          (n.sockets.collect (host, contact)).bind fun (_, sockets) =>
            match next.actor.sent[party.host.actor.sent.length]? with
            | none => some (n.set host ⟨next, .waiting⟩ sockets)
            | some (_, md) =>
              party.host.actor.contacts[contact]?.bind fun (ip, _) =>
                (sockets.ask (host, contact) ip (site.messages.pack md)).map (n.set host ⟨next, .waiting⟩)
        else some (n.set host ⟨next, .waiting⟩ n.sockets)
    | _ => none
  else none

/-- The branch of the listener, up to the second receive. Nothing is sent unless the message is a "1". -/
def takeKnock (site : Site Bytes) (n : Network Bytes) (host : String) (client : Client) :
    Option (Network Bytes) :=
  let party := n.parties host
  if party.phase = .waiting ∧ party.host.actor.mode = .polling then
    (n.sockets.receive host client).bind fun (smsg, sockets) =>
      if (site.messages.readText smsg).toList.head? = some '1' then
        (sockets.answer host site.messages.signal).map (n.set host ⟨party.host, .named⟩)
      else some (n.set host party sockets)
  else none

/-- The VM's name, from whichever client the listener gets its next message. -/
def takeName (site : Site Bytes) (n : Network Bytes) (host : String) (client : Client) (launched : Bool) :
    Option (Network Bytes) :=
  let party := n.parties host
  if party.phase = .named then
    (n.sockets.receive host client).bind fun (smsg, sockets) =>
      let vmName := site.messages.readText smsg
      if site.registered host vmName ∧ launched then
        (sockets.answer host (site.messages.text "2")).map (n.set host ⟨party.host, .serving vmName⟩)
      else some (n.set host ⟨party.host.exited, .named⟩ sockets)
  else none

/-- The metadata. Fields of what is none are read all the same, which ends the executer. -/
def takeFrame (site : Site Bytes) (n : Network Bytes) (host : String) (client : Client) (moved : Bool) :
    Option (Network Bytes) :=
  let party := n.parties host
  match party.phase with
  | .serving vmName =>
    (n.sockets.receive host client).bind fun (frame, sockets) =>
      match site.messages.unpack frame with
      | none => some (n.set host ⟨party.host.exited, party.phase⟩ sockets)
      | some md =>
        (hostStep host party.host (.arrive vmName md)).map fun next =>
          n.set host ⟨next.printHistory moved, .waiting⟩ sockets
  | _ => none

/-- One step of an executer that has not exited. -/
def networkStep (site : Site Bytes) (n : Network Bytes) (event : NetworkEvent) : Option (Network Bytes) :=
  if event.host ∈ site.hosts ∧ (n.actor event.host).mode ≠ .exited then
    match event with
    | .start host vmName =>
      (hostStep host (n.parties host).host (.start vmName)).map fun next =>
        n.set host ⟨next, n.phase host⟩ n.sockets
    | .request host vmName targetIp => takeRequest site n host vmName targetIp
    | .signalled host => takeSignal site n host
    | .reply host contact completed => takeReply site n host contact completed
    | .knock host client => takeKnock site n host client
    | .name host client launched => takeName site n host client launched
    | .frame host client moved => takeFrame site n host client moved
    | .failed host =>
      match n.phase host with
      | .serving vmName => some (n.set host ⟨(n.parties host).host.exited, .serving vmName⟩ n.sockets)
      | _ => none
  else none

@[simp] theorem set_phase_self (n : Network Bytes) (host : String) (party : Party)
    (sockets : Sockets String Client Bytes) : (n.set host party sockets).phase host = party.phase := by
  simp [Network.set,Network.phase]

@[simp] theorem set_actor_self (n : Network Bytes) (host : String) (party : Party)
    (sockets : Sockets String Client Bytes) : (n.set host party sockets).actor host = party.host.actor := by
  simp [Network.set,Network.actor]

theorem set_phase_of_ne {n : Network Bytes} {host other : String} {party : Party}
    {sockets : Sockets String Client Bytes} (apart : other ≠ host) :
    (n.set host party sockets).phase other = n.phase other := by
  simp [Network.set,Network.phase,Function.update_of_ne apart]

theorem set_actor_of_ne {n : Network Bytes} {host other : String} {party : Party}
    {sockets : Sockets String Client Bytes} (apart : other ≠ host) :
    (n.set host party sockets).actor other = n.actor other := by
  simp [Network.set,Network.actor,Function.update_of_ne apart]

@[simp] theorem set_sockets (n : Network Bytes) (host : String) (party : Party)
    (sockets : Sockets String Client Bytes) : (n.set host party sockets).sockets = sockets := rfl

/-- Messages as they are. -/
inductive Plain where
  | text (s : String)
  | signal
  | packed (md : TeleportMetadata)

def plain : Messages Plain where
  text := .text
  readText
    | .text s => s
    | _ => ""
  signal := .signal
  pack := .packed
  unpack
    | .packed md => some md
    | _ => none
  readText_text _ := rfl
  unpack_pack _ := rfl
  unpack_one := rfl

/-- Two hosts that know one VM. -/
def twoHosts : Site Plain where
  messages := plain
  hosts := ["10.0.0.1", "10.0.0.2"]
  registered _ vmName := vmName = "vm1"

end Hpvc.Executer
