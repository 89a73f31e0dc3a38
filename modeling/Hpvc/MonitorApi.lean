import Hpvc.MonitorTable

/-! Queries to the monitor server, from the client's call to its result: `response_to_api` and
`getMetricPackedMessageFromServer`. Packing and unpacking are parameters. -/
namespace Hpvc.Monitor

/-- An `is_host` that is not marked as set is not packed. -/
structure InterfaceMessage where
  hasIsHost : Bool
  isHost : Int
  ip : Option String
  deriving DecidableEq

/-- What arrives of a message. -/
def InterfaceMessage.sent (m : InterfaceMessage) : InterfaceMessage :=
  { m with isHost := if m.hasIsHost then m.isHost else 0 }

/-- `pack` and `unpack` of the three messages; `none` is the `NULL` of malformed input. -/
structure Codec (Bytes : Type) where
  packInterface : InterfaceMessage → Bytes
  unpackInterface : Bytes → Option InterfaceMessage
  packMachine : MachineMetric → Bytes
  unpackMachine : Bytes → Option MachineMetric
  packHost : HostMetric → Bytes
  unpackHost : Bytes → Option HostMetric
  interface : ∀ m, unpackInterface (packInterface m) = some m.sent
  machine : ∀ m, unpackMachine (packMachine m) = some m
  host : ∀ m, unpackHost (packHost m) = some m

/-- The first machine with the ip, in the order of the hosts and of their machines: the position of
its host, and its own among the machines of the host. -/
def findMachine : List HostMetric → Option String → Except Fault (Option (Nat × Nat))
  | [], _ => .ok none
  | host :: rest, ip => do
    match ← searchString MachineMetric.ip ip host.machines with
    | some i => return some (0, i)
    | none => return (← findMachine rest ip).map fun (k, i) => (k + 1, i)

def machineAt (hosts : List HostMetric) (position : Nat × Nat) : Option MachineMetric :=
  hosts[position.1]?.bind fun host => host.machines[position.2]?

/-- What ends the server in a query: a field of a message that is not there is read, or a
null string. -/
inductive ApiFault where
  | nullMessage
  | server (fault : Fault)

/-- The `reply` that is sent, where it is set. -/
inductive Reply (Bytes : Type) where
  | packed (data : Bytes)
  | unset

inductive Metric where
  | machine (m : MachineMetric)
  | host (h : HostMetric)

variable {Bytes : Type}

/-- `response_to_api`. Only a machine that is found is put into the reply. -/
def responseToApi (codec : Codec Bytes) (hosts : List HostMetric) (msg : Bytes) :
    Except ApiFault (Reply Bytes) :=
  match codec.unpackInterface msg with
  | none => .error .nullMessage
  | some message =>
    if message.isHost = 1 then
      match findHost hosts message.ip with
      | .error fault => .error (.server fault)
      | .ok _ => .ok .unset
    else
      match findMachine hosts message.ip with
      | .error fault => .error (.server fault)
      | .ok found =>
        match found.bind (machineAt hosts) with
        | some m => .ok (.packed (codec.packMachine m))
        | none => .ok .unset

/-- The message of the client: it sets `is_host`, but not that it is set. -/
def clientMessage (isHost : Int) (ip : String) : InterfaceMessage := ⟨false, isHost, some ip⟩

/-- `getMetricPackedMessageFromServer`: the metric it returns, with `none` for `NULL`. What it unpacks
as a host is assigned to `machine`, and `host` returned. -/
def getMetric (codec : Codec Bytes) (isHost : Int) (reply : Bytes) : Option Metric :=
  if isHost = 0 then (codec.unpackMachine reply).map .machine else none

/-- The reply is the packing of a stored metric of the right kind with the ip, where there is one. -/
def RightReply (codec : Codec Bytes) (hosts : List HostMetric) (isHost : Int) (ip : Option String)
    (data : Bytes) : Prop :=
  (isHost = 1 → (∃ h ∈ hosts, h.ip = ip) → ∃ h ∈ hosts, h.ip = ip ∧ data = codec.packHost h) ∧
  (isHost ≠ 1 → (∃ h ∈ hosts, ∃ m ∈ h.machines, m.ip = ip) →
    ∃ h ∈ hosts, ∃ m ∈ h.machines, m.ip = ip ∧ data = codec.packMachine m)

/-- The server answers a message with an initialised reply, the right one, or reads nothing
of a message that does not decode. -/
def Answered (codec : Codec Bytes) (hosts : List HostMetric) (msg : Bytes) : Prop :=
  (codec.unpackInterface msg = none → responseToApi codec hosts msg ≠ .error .nullMessage) ∧
  ∀ message, codec.unpackInterface msg = some message →
    ∃ data, responseToApi codec hosts msg = .ok (.packed data) ∧
      RightReply codec hosts message.isHost message.ip data

/-- A call of the client is answered, and returns the metric that is stored. -/
def AnsweredCall (codec : Codec Bytes) (hosts : List HostMetric) (isHost : Int) (ip : String) : Prop :=
  ∃ data, responseToApi codec hosts (codec.packInterface (clientMessage isHost ip)) = .ok (.packed data) ∧
    RightReply codec hosts isHost (some ip) data ∧
    (isHost = 1 → (∃ h ∈ hosts, h.ip = some ip) →
      ∃ h ∈ hosts, h.ip = some ip ∧ getMetric codec isHost data = some (.host h)) ∧
    (isHost ≠ 1 → (∃ h ∈ hosts, ∃ m ∈ h.machines, m.ip = some ip) →
      ∃ h ∈ hosts, ∃ m ∈ h.machines, m.ip = some ip ∧ getMetric codec isHost data = some (.machine m))

/-- A search among machines that all have an ip does not fail. -/
theorem findMachine_fine {hosts : List HostMetric} (ips : ∀ h ∈ hosts, ∀ m ∈ h.machines, m.ip ≠ none)
    (ip : String) : ∃ found, findMachine hosts (some ip) = .ok found := by
  induction hosts with
  | nil => exact ⟨none, rfl⟩
  | cons host rest ih =>
    obtain ⟨inside, searched⟩ := searchString_fine MachineMetric.ip (Option.some_ne_none ip)
      (ips host List.mem_cons_self)
    obtain ⟨later, onward⟩ := ih fun h member => ips h (List.mem_cons_of_mem _ member)
    simp only [findMachine,searched,onward,bind,Except.bind]
    cases inside with
    | some i => exact ⟨_, rfl⟩
    | none => exact ⟨_, rfl⟩

/-- Either no machine has the ip, or the search stops at the first that has. -/
theorem findMachine_ok {hosts : List HostMetric} {ip : Option String} {found : Option (Nat × Nat)}
    (searched : findMachine hosts ip = .ok found) :
    (found = none ∧ ∀ h ∈ hosts, ∀ m ∈ h.machines, m.ip ≠ ip) ∨
      ∃ before h after i m, hosts = before ++ h :: after ∧ h.machines[i]? = some m ∧
        found = some (before.length, i) ∧ m.ip = ip ∧ ∀ h' ∈ before, ∀ m' ∈ h'.machines, m'.ip ≠ ip := by
  induction hosts generalizing found with
  | nil =>
    cases searched
    exact .inl ⟨rfl, by simp⟩
  | cons host rest ih =>
    obtain ⟨inside, first, searched⟩ := bind_ok searched
    rcases searchString_ok first with ⟨rfl, others⟩ | ⟨ms, m, ms', same, rfl, is, _⟩
    · obtain ⟨later, onward, searched⟩ := bind_ok searched
      cases searched
      rcases ih onward with ⟨rfl, none⟩ | ⟨before, h, after, i, m, rfl, there, rfl, is, earlier⟩
      · refine .inl ⟨rfl, fun h inside => ?_⟩
        rcases List.mem_cons.mp inside with rfl | later
        · exact others
        · exact none h later
      · refine .inr ⟨host :: before, h, after, i, m, rfl, there, rfl, is, fun h' inside => ?_⟩
        rcases List.mem_cons.mp inside with rfl | later
        · exact others
        · exact earlier h' later
    · cases searched
      exact .inr ⟨[], host, rest, ms.length, m, rfl, by simp [same], rfl, is, by simp⟩

/-- What is found is a stored machine with the ip. -/
theorem findMachine_stored {hosts : List HostMetric} {ip : Option String} {found : Nat × Nat}
    (searched : findMachine hosts ip = .ok (some found)) :
    ∃ h ∈ hosts, ∃ m ∈ h.machines, m.ip = ip ∧ machineAt hosts found = some m := by
  rcases findMachine_ok searched with ⟨none, _⟩ | ⟨before, h, after, i, m, rfl, there, same, is, _⟩
  · cases none
  · cases same
    exact ⟨h, by simp, m, List.mem_of_getElem? there, is, by simp [machineAt,there]⟩

/-- Exactly then a reply is set: a machine is asked for, and found. -/
theorem response_packed {codec : Codec Bytes} {hosts : List HostMetric} {msg data : Bytes} :
    responseToApi codec hosts msg = .ok (.packed data) ↔
      ∃ message, codec.unpackInterface msg = some message ∧ message.isHost ≠ 1 ∧
        ∃ found m, findMachine hosts message.ip = .ok (some found) ∧ machineAt hosts found = some m ∧
          data = codec.packMachine m := by
  unfold responseToApi
  cases codec.unpackInterface msg with
  | none => simp
  | some message =>
    by_cases host : message.isHost = 1
    · cases searched : findHost hosts message.ip <;> simp [host,searched]
    · cases searched : findMachine hosts message.ip with
      | error fault => simp [host,searched]
      | ok found =>
        cases found with
        | none => simp [host,searched]
        | some found =>
          obtain ⟨k, i⟩ := found
          cases there : machineAt hosts (k, i) with
          | none => simp [host,searched,there]
          | some m => simp [host,searched,there,eq_comm (a := data)]

theorem answered_iff (codec : Codec Bytes) (hosts : List HostMetric) (msg : Bytes) :
    Answered codec hosts msg ↔
      ∃ message, codec.unpackInterface msg = some message ∧ message.isHost ≠ 1 ∧
        ∃ found, findMachine hosts message.ip = .ok (some found) := by
  constructor
  · rintro ⟨nothing_read, answers⟩
    cases decoded : codec.unpackInterface msg with
    | none =>
      have read : responseToApi codec hosts msg = .error .nullMessage := by simp [responseToApi,decoded]
      exact absurd read (nothing_read decoded)
    | some message =>
      obtain ⟨data, replied, _⟩ := answers message decoded
      obtain ⟨message', same, machine, found, _, searched, _⟩ := response_packed.mp replied
      cases decoded.symm.trans same
      exact ⟨message, rfl, machine, found, searched⟩
  · rintro ⟨message, decoded, machine, found, searched⟩
    have decodes : codec.unpackInterface msg ≠ none := by simp [decoded]
    refine ⟨fun malformed => absurd malformed decodes, fun message' same => ?_⟩
    cases decoded.symm.trans same
    obtain ⟨h, inside, m, member, is, there⟩ := findMachine_stored searched
    exact ⟨_, response_packed.mpr ⟨message, decoded, machine, found, m, searched, there, rfl⟩,
      fun host => absurd host machine, fun _ _ => ⟨h, inside, m, member, is, rfl⟩⟩

theorem answeredCall_iff (codec : Codec Bytes) (hosts : List HostMetric) (isHost : Int) (ip : String) :
    AnsweredCall codec hosts isHost ip ↔
      (∃ found, findMachine hosts (some ip) = .ok (some found)) ∧
        (isHost = 0 ∨ (isHost = 1 ∧ ∀ h ∈ hosts, h.ip ≠ some ip)) := by
  -- The server sees `is_host` unset, whatever the client was called with.
  have arrives := codec.interface (clientMessage isHost ip)
  have replies (data : Bytes) : responseToApi codec hosts (codec.packInterface (clientMessage isHost ip)) =
      .ok (.packed data) ↔ _ := response_packed
  simp only [arrives,Option.some.injEq,exists_eq_left'] at replies
  constructor
  · rintro ⟨data, replied, _, host, machine⟩
    obtain ⟨_, found, _, searched, _⟩ := (replies data).mp replied
    refine ⟨⟨found, searched⟩, ?_⟩
    by_cases zero : isHost = 0
    · exact .inl zero
    · have null : getMetric codec isHost data = none := if_neg zero
      obtain ⟨h, inside, m, member, is, _⟩ := findMachine_stored searched
      by_cases one : isHost = 1
      · refine .inr ⟨one, fun h inside stored => ?_⟩
        obtain ⟨_, _, _, returned⟩ := host one ⟨h, inside, stored⟩
        rw [null] at returned
        cases returned
      · obtain ⟨_, _, _, _, _, returned⟩ := machine one ⟨h, inside, m, member, is⟩
        rw [null] at returned
        cases returned
  · rintro ⟨⟨found, searched⟩, kind⟩
    obtain ⟨h, inside, m, member, is, there⟩ := findMachine_stored searched
    have machine : (clientMessage isHost ip).sent.isHost ≠ 1 := by simp [InterfaceMessage.sent,clientMessage]
    refine ⟨codec.packMachine m, (replies _).mpr ⟨machine, found, m, searched, there, rfl⟩,
      ⟨fun one stored => ?_, fun _ _ => ⟨h, inside, m, member, is, rfl⟩⟩, fun one stored => ?_, fun machine _ => ?_⟩
    · rcases kind with zero | ⟨_, none⟩
      · omega
      · obtain ⟨h, inside, stored⟩ := stored
        exact absurd stored (none h inside)
    · rcases kind with zero | ⟨_, none⟩
      · omega
      · obtain ⟨h, inside, stored⟩ := stored
        exact absurd stored (none h inside)
    · rcases kind with zero | ⟨one, _⟩
      · refine ⟨h, inside, m, member, is, ?_⟩
        rw [getMetric,if_pos zero,codec.machine]
        rfl
      · exact absurd one machine

/-- Messages as they are, and a text that is none of them. -/
inductive Frame where
  | interface (m : InterfaceMessage)
  | machine (m : MachineMetric)
  | host (h : HostMetric)
  | text (s : String)

def frames : Codec Frame where
  packInterface m := .interface m.sent
  unpackInterface
    | .interface m => some m
    | _ => none
  packMachine := .machine
  unpackMachine
    | .machine m => some m
    | _ => none
  packHost := .host
  unpackHost
    | .host h => some h
    | _ => none
  interface _ := rfl
  machine _ := rfl
  host _ := rfl

/-- Exactly the queries that are answered: the message decodes, it does not ask for a host, and a
machine with the ip is found; and for a call of the client, which never asks for a host, it was
called for a machine, or for a host that is not stored. -/
theorem metrics_query_answered (codec : Codec Bytes) (hosts : List HostMetric) :
    (∀ msg, Answered codec hosts msg ↔
      ∃ message, codec.unpackInterface msg = some message ∧ message.isHost ≠ 1 ∧
        ∃ found, findMachine hosts message.ip = .ok (some found)) ∧
    ∀ isHost ip, AnsweredCall codec hosts isHost ip ↔
      (∃ found, findMachine hosts (some ip) = .ok (some found)) ∧
        (isHost = 0 ∨ (isHost = 1 ∧ ∀ h ∈ hosts, h.ip ≠ some ip)) :=
  ⟨answered_iff codec hosts, answeredCall_iff codec hosts⟩

/-- A host with a machine. -/
def monitoredHost : HostMetric :=
  ⟨some "10.0.0.1", 4, 2, 1 / 2, 8, 30, [⟨some "10.0.1.1", some "a", 1, 1, 1, 5⟩]⟩

/-- A text that is no message, a query for the host, one for a machine that is not stored, and
the client's query for the host. -/
theorem metrics_query_unanswered :
    ¬ Answered frames [monitoredHost] (.text "T") ∧
    ¬ Answered frames [monitoredHost] (.interface ⟨true, 1, some "10.0.0.1"⟩) ∧
    ¬ Answered frames [monitoredHost] (.interface ⟨true, 0, some "10.0.1.2"⟩) ∧
    ¬ AnsweredCall frames [monitoredHost] 1 "10.0.0.1" := by
  refine ⟨fun answered => answered.1 rfl rfl, fun answered => ?_, fun answered => ?_, fun answered => ?_⟩
  · obtain ⟨_, replied, _⟩ := answered.2 _ rfl
    have unset : responseToApi frames [monitoredHost] (.interface ⟨true, 1, some "10.0.0.1"⟩) = .ok .unset := rfl
    cases unset.symm.trans replied
  · obtain ⟨_, replied, _⟩ := answered.2 _ rfl
    have unset : responseToApi frames [monitoredHost] (.interface ⟨true, 0, some "10.0.1.2"⟩) = .ok .unset := rfl
    cases unset.symm.trans replied
  · obtain ⟨_, replied, _⟩ := answered
    have unset : responseToApi frames [monitoredHost]
        (frames.packInterface (clientMessage 1 "10.0.0.1")) = .ok .unset := rfl
    cases unset.symm.trans replied

end Hpvc.Monitor
